import Enmart.Base.Runs
import Enmart.Firestore.LocalView

/-!
# What the client shows while its writes are under way

The client keeps what the server has of a document, the writes that have not been
answered, and an overlay. A write is applied to what is shown, and the overlay is
calculated of what comes of it; the writes themselves are not made again. They are
when the server has answered one of them: the overlay is calculated of all that are
left, made of what the server has then.

What is shown is to be what the server has with the writes that are left
(`LocalStore.ShowsWrites`). It is, exactly when no field that has been patched is
lost together with the field that it was in, but for one in a map, and no overlay
stays behind where the writes that are left come to nothing
(`LocalStore.shows_writes_iff`).
-/

namespace Firestore

open ObjectValue Mutation

/-! ## What the server answers -/

/-- **The answer to a write**: the version of the document, and the values that its
transforms came to. -/
structure MutationResult where
  version : SnapshotVersion
  transformResults : List Value

/-- The value that a field takes at the server. Of an array the server does not say
what it came to. -/
def TransformOperation.applyToRemoteDocument (t : TransformOperation)
    (previousValue : Option Value) (transformResult : Value) : Value :=
  match t with
  | .arrayUnion _ | .arrayRemove _ => t.applyToLocalView previousValue
  | .numericIncrement _ => transformResult

/-- The value is in order if the one that the server answers is. -/
theorem TransformOperation.inOrder_applyToRemoteDocument (t : TransformOperation)
    (previousValue : Option Value) {transformResult : Value} (h : transformResult.InOrder) :
    (t.applyToRemoteDocument previousValue transformResult).InOrder := by
  cases t with
  | arrayUnion es => exact inOrder_applyToLocalView (.arrayUnion es) previousValue
  | arrayRemove es => exact inOrder_applyToLocalView (.arrayRemove es) previousValue
  | numericIncrement operand => exact h

namespace MutableDocument

def convertToUnknownDocument (_ : MutableDocument) (version : SnapshotVersion) : MutableDocument :=
  ⟨.unknownDocument, version, [], .hasCommittedMutations⟩

def setHasCommittedMutations (doc : MutableDocument) : MutableDocument :=
  { doc with documentState := .hasCommittedMutations }

end MutableDocument

namespace Mutation

/-- The values transforms come to at the server, by its answer. -/
def serverTransformResults (transforms : List FieldTransform) (previousData : Fields)
    (results : List Value) : TransformMap :=
  (transforms.zip results).foldl (fun acc t => OrderedSet.insert FieldPath.Before Prod.fst
    (t.fst.path, some (t.fst.transformation.applyToRemoteDocument
      (ObjectValue.get previousData t.fst.path) t.snd)) acc) []

/-- **What the server has after a write**, by its answer; none, where the answer has
another number of results than the write has transforms. -/
def applyToRemoteDocument (m : Mutation) (doc : MutableDocument) (result : MutationResult) :
    Option MutableDocument :=
  match m with
  | .set value _ transforms =>
    if transforms.length = result.transformResults.length then
      let data := ObjectValue.setAll value
        (serverTransformResults transforms doc.value result.transformResults)
      some (doc.convertToFoundDocument result.version data).setHasCommittedMutations
    else none
  | .patch value mask precondition transforms =>
    if precondition.isValidFor doc then
      if transforms.length = result.transformResults.length then
        let transformResults :=
          serverTransformResults transforms doc.value result.transformResults
        let data := ObjectValue.setAll (ObjectValue.setAll doc.value (getPatch value mask))
          transformResults
        some (doc.convertToFoundDocument result.version data).setHasCommittedMutations
      else none
    -- the server has accepted it, and so has another document
    else some (doc.convertToUnknownDocument result.version)
  | .delete _ =>
    if result.transformResults = [] then
      some (doc.convertToNoDocument result.version).setHasCommittedMutations
    else none

end Mutation

/-! ## The store -/

/-- **What the client keeps of a document.** -/
structure LocalStore where
  /-- What the server has. -/
  remote : MutableDocument
  queue : List MutationBatch
  /-- The overlay, with the last write it is of. -/
  overlay : Option (ℕ × Mutation)
  nextBatchId : ℕ

namespace LocalStore

/-- **The document the client shows**: that of the server, with the overlay. -/
def getDocument (s : LocalStore) : MutableDocument :=
  match s.overlay with
  | none => s.remote
  | some (_, o) =>
    (o.applyToLocalView (if o.fieldMask.isSome then s.remote else .invalidDocument) (some [])).fst

/-- The document a write is made of, with the fields that have been patched in it.
-/
def overlayedDocument (s : LocalStore) : MutableDocument × Option FieldMask :=
  match s.overlay with
  | none => (s.remote, some [])
  | some (_, o) => ((o.applyToLocalView s.remote none).fst, o.fieldMask)

/-- The overlay of a document is saved; where there is none, the one that has been
saved before stays. -/
def saveOverlay (s : LocalStore) (batchId : ℕ) (doc : MutableDocument × Option FieldMask) :
    LocalStore :=
  match calculateOverlayMutation doc.fst doc.snd with
  | some o => { s with overlay := some (batchId, o) }
  | none => s

/-- The batch in which a write is queued. -/
def batchOf (s : LocalStore) (m : Mutation) : MutationBatch where
  batchId := s.nextBatchId
  baseMutations :=
    match m.extractTransformBaseValue s.overlayedDocument.fst with
    | some baseValue =>
      [.patch baseValue (Value.fieldMask (.map baseValue)) (.exists true) []]
    | none => []
  mutation := m

/-- **A write** is queued, and the overlay of the document with it is saved. -/
def writeLocally (s : LocalStore) (m : Mutation) : LocalStore :=
  let b := s.batchOf m
  { s with queue := s.queue ++ [b], nextBatchId := s.nextBatchId + 1 }.saveOverlay b.batchId
    (b.applyToLocalView s.overlayedDocument)

/-- The overlay is removed if it is the one saved with a batch. -/
def removeOverlaysForBatchId (s : LocalStore) (batchId : ℕ) : LocalStore :=
  { s with overlay := s.overlay.filter (fun o => o.fst ≠ batchId) }

/-- The overlay of all the writes that are left is calculated and saved with the
last of them. -/
def recalculateAndSaveOverlays (s : LocalStore) : LocalStore :=
  match s.queue.getLast? with
  | some b => s.saveOverlay b.batchId (localView s.remote s.queue)
  | none => s

/-- The first write is answered: the server has a document now, and the overlay is
calculated again. -/
def removeMutationBatch (s : LocalStore) (remote : MutableDocument) : LocalStore :=
  match s.queue with
  | b :: queue =>
    ({ s with remote, queue }.removeOverlaysForBatchId b.batchId).recalculateAndSaveOverlays
  | [] => s

/-- **The server rejects the first write.** -/
def rejectBatch (s : LocalStore) : Option LocalStore :=
  match s.queue with
  | _ :: _ => some (s.removeMutationBatch s.remote)
  | [] => none

/-- What the server has when it acknowledges the first write, unless that is known
already. -/
def acknowledged (s : LocalStore) (result : MutationResult) : Option MutableDocument :=
  match s.queue with
  | b :: _ =>
    if s.remote.version.microseconds < result.version.microseconds then
      b.mutation.applyToRemoteDocument s.remote result
    else some s.remote
  | [] => none

/-- **The server acknowledges the first write.** The overlay is calculated again,
whether or not the write has transforms: the number that is compared is one of the
message's format, and always 0. -/
def acknowledgeBatch (s : LocalStore) (result : MutationResult) : Option LocalStore :=
  (s.acknowledged result).map s.removeMutationBatch

/-- What may happen: a write here, or an answer of the server. -/
inductive Action where
  | write (m : Mutation)
  | acknowledge (result : MutationResult)
  | reject

/-- **One step of the client**, with one document in it. -/
def step (s : LocalStore) : Action → Option LocalStore
  | .write m => some (s.writeLocally m)
  | .acknowledge result => s.acknowledgeBatch result
  | .reject => s.rejectBatch

/-- The client with a document of which no writes are under way. -/
def synced (remote : MutableDocument) (nextBatchId : ℕ) : LocalStore :=
  ⟨remote, [], none, nextBatchId⟩

/-! ## Overlays, shown -/

/-- No field that has been patched has been lost together with the field that it was
in, unless that was in a map. -/
def MasksKept (doc : MutableDocument × Option FieldMask) : Prop :=
  ∀ mask, doc.snd = some mask → MapsKept doc.fst.value mask

/-- The document an overlay shows over the one of the server. -/
def shown (remote : MutableDocument) (o : Mutation) : MutableDocument :=
  (o.applyToLocalView (if o.fieldMask.isSome then remote else .invalidDocument) (some [])).fst

/-- **The overlay of a document** that writes have made. -/
inductive Overlays (remote : MutableDocument) :
    MutableDocument × Option FieldMask → Mutation → Prop where
  | patch {d : Fields} {mask : FieldMask} (hd : d.InOrder)
    (hcovers : Covers {p | p ∈ mask} remote.value d) :
    Overlays remote (⟨.foundDocument, .none, d, .hasLocalMutations⟩, some mask)
      (.patch (overlayPatch d mask).fst (overlayPatch d mask).snd .none [])
  | set {d : Fields} (hd : d.InOrder) :
    Overlays remote (⟨.foundDocument, .none, d, .hasLocalMutations⟩, none) (.set d .none [])
  | delete : Overlays remote (⟨.noDocument, .none, [], .hasLocalMutations⟩, none) (.delete .none)

section Shown

variable {remote : MutableDocument} {doc : MutableDocument × Option FieldMask} {o : Mutation}

/-- **What has been written has an overlay**, and what has not has none. -/
theorem calculateOverlayMutation_cases (h : Tracks remote doc)
    (hsynced : remote.hasLocalMutations = false) :
    (doc = (remote, some []) ∧ calculateOverlayMutation doc.fst doc.snd = none)
      ∨ (doc.fst.hasLocalMutations = true
        ∧ ∃ o, calculateOverlayMutation doc.fst doc.snd = some o ∧ Overlays remote doc o) := by
  cases h with
  | untouched =>
    refine Or.inl ⟨rfl, ?_⟩
    rw [calculateOverlayMutation.eq_def, if_neg (by rw [hsynced]; exact Bool.false_ne_true)]
  | patched hd hcovers => exact Or.inr ⟨rfl, _, rfl, .patch hd hcovers⟩
  | set hd => exact Or.inr ⟨rfl, _, rfl, .set hd⟩
  | deleted => exact Or.inr ⟨rfl, _, rfl, .delete⟩

/-- Overlaying a document that has been set shows that document. -/
theorem applyToLocalView_set_overlay {d : Fields} (hd : d.InOrder) (doc : MutableDocument)
    (mask : Option FieldMask) :
    ((Mutation.set d .none []).applyToLocalView doc mask).fst
      = ⟨.foundDocument, .none, d, .hasLocalMutations⟩ := by
  show (⟨_, _, setAll d [], _⟩ : MutableDocument) = _
  rw [setAll_nil hd]
  rfl

/-- Overlaying the fields that have been patched shows them over the document of
the server. -/
theorem applyToLocalView_patch_overlay {doc : MutableDocument} {d : Fields} {mask : FieldMask}
    (hd : d.InOrder) (hdoc : doc.value.InOrder) (hcovers : Covers {p | p ∈ mask} doc.value d)
    (previousMask : Option FieldMask) :
    ((Mutation.patch (overlayPatch d mask).fst (overlayPatch d mask).snd .none []).applyToLocalView
      doc previousMask).fst
      = ⟨.foundDocument, .none, setAll doc.value
        (getPatch (overlayPatch d mask).fst (overlayPatch d mask).snd), .hasLocalMutations⟩ := by
  have horder := (isOverlaid_overlayPatch hd hdoc hcovers).inOrder
  show (⟨_, _, setAll (setAll doc.value _) [], _⟩ : MutableDocument) = _
  rw [setAll_nil horder]
  rfl

namespace Overlays

/-- A document with an overlay is marked as written. -/
theorem hasLocalMutations (h : Overlays remote doc o) : doc.fst.hasLocalMutations = true := by
  cases h <;> rfl

/-- What an overlay shows is marked as written. -/
theorem hasLocalMutations_shown (h : Overlays remote doc o) (remote' : MutableDocument) :
    (shown remote' o).hasLocalMutations = true := by
  cases h <;> rfl

/-- **An overlay shows what it is of**, exactly when the masks are kept. -/
theorem shown_eq_iff (h : Overlays remote doc o) (hremote : remote.value.InOrder) :
    shown remote o = doc.fst ↔ MasksKept doc := by
  cases h with
  | @patch d mask hd hcovers =>
    have hshown := applyToLocalView_patch_overlay hd hremote hcovers (some [])
    constructor
    · intro h m hm
      obtain rfl := Option.some.inj hm
      exact (overlayPatch_eq_iff hd hremote hcovers).mp
        (congrArg MutableDocument.value (hshown.symm.trans h))
    · intro h
      refine hshown.trans ?_
      rw [(overlayPatch_eq_iff hd hremote hcovers).mpr (h mask rfl)]
  | set hd => exact iff_of_true (applyToLocalView_set_overlay hd .invalidDocument (some [])) nofun
  | delete => exact iff_of_true rfl nofun

/-- Applying an overlay to the document of the server is showing it. -/
theorem applyToLocalView_eq (h : Overlays remote doc o) :
    (o.applyToLocalView remote none).fst = shown remote o := by
  cases h with
  | patch hd hcovers => exact fst_applyToLocalView _ remote _ _
  | set hd =>
    exact (applyToLocalView_set_overlay hd remote none).trans
      (applyToLocalView_set_overlay hd .invalidDocument (some [])).symm
  | delete => rfl

/-- **The document of an overlay is tracked by the fields of its patch.** -/
theorem tracks (h : Overlays remote doc o) : Tracks remote (doc.fst, o.fieldMask) := by
  cases h with
  | patch hd hcovers =>
    exact .patched hd ((IsOverlayOf.overlayPatch hd hcovers.ne_nil).covers hcovers)
  | set hd => exact .set hd
  | delete => exact .deleted

end Overlays

end Shown

/-! ## Shown, along a run -/

/-- **What is shown is what the server has, with the writes that are left.** -/
def ShowsWrites (s : LocalStore) : Prop := s.getDocument = (localView s.remote s.queue).fst

/-- **The store is in order**: its documents and the writes in its queue are, and
the batches are numbered upwards. -/
structure InOrder (s : LocalStore) : Prop where
  remote : s.remote.value.InOrder
  synced : s.remote.hasLocalMutations = false
  puts : ∀ b ∈ s.queue, b.PutsValues
  ordered : s.queue.Pairwise (fun b c => b.batchId < c.batchId)
  fresh : ∀ b ∈ s.queue, b.batchId < s.nextBatchId

/-- **The overlay is that of the writes that are left**: there is none where they
come to nothing; otherwise it is saved with the last of them. -/
def IsShown (s : LocalStore) : Prop :=
  match s.overlay with
  | none => (localView s.remote s.queue).fst.hasLocalMutations = false
  | some (batchId, o) => s.queue.getLast?.map MutationBatch.batchId = some batchId
    ∧ ∃ doc, Overlays s.remote doc o ∧ doc.fst = (localView s.remote s.queue).fst ∧ MasksKept doc

/-- When the first write has been answered, no overlay stays behind: if the writes
that are left come to nothing, then there are none, or there was nothing before. -/
def LeavesNone (s : LocalStore) (remote : MutableDocument) : Prop :=
  (localView remote s.queue.tail).fst.hasLocalMutations = false →
    s.queue.tail = [] ∨ (localView s.remote s.queue).fst.hasLocalMutations = false

/-- The writes that are left are shown, when the first has been answered. -/
def ShownWithout (s : LocalStore) (remote : MutableDocument) : Prop :=
  MasksKept (localView remote s.queue.tail) ∧ s.LeavesNone remote

/-- **What makes a step show the writes.** After a write, the masks are kept. After
an answer they are, and no overlay stays behind. -/
def Shows (s : LocalStore) : Action → Prop
  | .write m => MasksKept ((s.batchOf m).applyToLocalView s.overlayedDocument)
  | .acknowledge result => ∀ remote, s.acknowledged result = some remote → s.ShownWithout remote
  | .reject => s.ShownWithout s.remote

/-- A step is of values in order: the write puts values, and the server answers
with values in order. -/
def Action.PutsValues : Action → Prop
  | .write m => m.PutsValues
  | .acknowledge result => ∀ v ∈ result.transformResults, v.InOrder
  | .reject => True

variable {s : LocalStore}

/-- A write that puts values is queued as a batch that does. -/
theorem putsValues_batchOf (s : LocalStore) {m : Mutation} (hm : m.PutsValues) :
    (s.batchOf m).PutsValues := by
  intro n hn
  rcases List.mem_append.mp hn with hn | hn
  · unfold batchOf at hn
    cases hbase : m.extractTransformBaseValue s.overlayedDocument.fst with
    | none =>
      rw [hbase] at hn
      exact absurd hn List.not_mem_nil
    | some baseValue =>
      rw [hbase] at hn
      obtain rfl := List.mem_singleton.mp hn
      have horder := inOrder_extractTransformBaseValue hm.path_ne_nil hbase
      exact ⟨horder, Value.get_of_mem_fieldMask horder, fun t ht => absurd ht List.not_mem_nil⟩
  · exact List.mem_singleton.mp hn ▸ hm

/-- An overlay that is that of the writes shows them. -/
theorem IsShown.showsWrites (h : s.IsShown) (hs : s.InOrder) : s.ShowsWrites := by
  have htracks := Tracks.localView hs.remote hs.puts
  obtain ⟨remote, queue, overlay, nextBatchId⟩ := s
  cases overlay with
  | none => exact (congrArg Prod.fst (htracks.eq_of_not_hasLocalMutations h)).symm
  | some overlay =>
    obtain ⟨-, doc, hover, hdoc, hkept⟩ := h
    exact ((hover.shown_eq_iff hs.remote).mpr hkept).trans hdoc

/-- **The document a write is made of** is one that writes can make. -/
theorem IsShown.overlayedDocument (h : s.IsShown) (hs : s.InOrder) :
    Tracks s.remote s.overlayedDocument
      ∧ s.overlayedDocument.fst = (localView s.remote s.queue).fst := by
  have htracks := Tracks.localView hs.remote hs.puts
  have hshown := h.showsWrites hs
  obtain ⟨remote, queue, overlay, nextBatchId⟩ := s
  cases overlay with
  | none => exact ⟨.untouched, hshown⟩
  | some overlay =>
    obtain ⟨-, doc, hover, hdoc, hkept⟩ := h
    have hfst : ((overlay.snd).applyToLocalView remote none).fst = doc.fst :=
      hover.applyToLocalView_eq.trans ((hover.shown_eq_iff hs.remote).mpr hkept)
    refine ⟨?_, hfst.trans hdoc⟩
    show Tracks remote ((overlay.snd.applyToLocalView remote none).fst, overlay.snd.fieldMask)
    rw [hfst]
    exact hover.tracks

/-- What has been written stays written, whatever is written on top of it. -/
theorem hasLocalMutations_applyToLocalView (b : MutationBatch)
    {doc : MutableDocument × Option FieldMask} (h : doc.fst.hasLocalMutations = true) :
    (b.applyToLocalView doc).fst.hasLocalMutations = true :=
  List.foldlRecOn
    (motive := fun doc : MutableDocument × Option FieldMask => doc.fst.hasLocalMutations = true)
    _ _ h (fun _ hdoc m _ => Tracks.hasLocalMutations hdoc m)

section Save

variable {doc : MutableDocument × Option FieldMask} {batchId : ℕ}

/-- Saving an overlay keeps the store in order. -/
theorem InOrder.saveOverlay (hs : s.InOrder) : (s.saveOverlay batchId doc).InOrder := by
  rw [LocalStore.saveOverlay]
  split
  · exact ⟨hs.remote, hs.synced, hs.puts, hs.ordered, hs.fresh⟩
  · exact hs

/-- **An overlay that is saved shows the writes**, if the masks are kept; and if
there is none to save, none is left from before. -/
theorem isShown_saveOverlay (hs : s.InOrder) (htracks : Tracks s.remote doc)
    (hdoc : doc.fst = (localView s.remote s.queue).fst)
    (hlast : s.queue.getLast?.map MutationBatch.batchId = some batchId)
    (hstale : doc.fst.hasLocalMutations = false → s.overlay = none) (hkept : MasksKept doc) :
    (s.saveOverlay batchId doc).IsShown := by
  rcases calculateOverlayMutation_cases htracks hs.synced with ⟨rfl, hnone⟩ | ⟨-, o, ho, hover⟩
  · rw [LocalStore.saveOverlay, hnone]
    show s.IsShown
    rw [IsShown, hstale hs.synced]
    show (localView s.remote s.queue).fst.hasLocalMutations = false
    rw [← hdoc]
    exact hs.synced
  · rw [LocalStore.saveOverlay, ho]
    exact ⟨hlast, doc, hover, hdoc, hkept⟩

/-- **An overlay of masks that are not kept shows something else** than the
writes. -/
theorem not_showsWrites_saveOverlay (hs : s.InOrder) (htracks : Tracks s.remote doc)
    (hdoc : doc.fst = (localView s.remote s.queue).fst) (hkept : ¬ MasksKept doc) :
    ¬ (s.saveOverlay batchId doc).ShowsWrites := by
  rcases calculateOverlayMutation_cases htracks hs.synced with ⟨rfl, -⟩ | ⟨-, o, ho, hover⟩
  · exact absurd (fun mask hmask p hp => absurd (Option.some.inj hmask ▸ hp) List.not_mem_nil) hkept
  · rw [LocalStore.saveOverlay, ho]
    intro h
    exact hkept ((hover.shown_eq_iff hs.remote).mp (h.trans hdoc.symm))

/-- **The writes are not shown by an overlay that is left from before**, where there
is none to save. -/
theorem not_showsWrites_of_stale (htracks : Tracks s.remote doc)
    (hdoc : doc.fst = (localView s.remote s.queue).fst) (hsynced : s.remote.hasLocalMutations = false)
    (hlocal : doc.fst.hasLocalMutations = false) {id : ℕ} {o : Mutation}
    (hoverlay : s.overlay = some (id, o)) {remote : MutableDocument}
    {doc' : MutableDocument × Option FieldMask} (hover : Overlays remote doc' o) :
    ¬ (s.saveOverlay batchId doc).ShowsWrites := by
  rcases calculateOverlayMutation_cases htracks hsynced with ⟨-, hnone⟩ | ⟨hlocal', -⟩
  · rw [LocalStore.saveOverlay, hnone]
    intro h
    change s.getDocument = _ at h
    rw [getDocument, hoverlay, ← hdoc] at h
    have hshown := hover.hasLocalMutations_shown s.remote
    rw [show shown s.remote o = doc.fst from h, hlocal] at hshown
    exact Bool.false_ne_true hshown
  · exact absurd hlocal' (Bool.eq_false_iff.mp hlocal)

end Save

/-- Writes that come to nothing have no overlay. -/
theorem IsShown.overlay_eq_none (h : s.IsShown)
    (hlocal : (localView s.remote s.queue).fst.hasLocalMutations = false) : s.overlay = none := by
  obtain ⟨remote, queue, overlay, nextBatchId⟩ := s
  cases overlay with
  | none => rfl
  | some overlay =>
    obtain ⟨-, doc, hover, hdoc, -⟩ := h
    exact absurd (hdoc ▸ hover.hasLocalMutations) (Bool.eq_false_iff.mp hlocal)

/-! ### A write -/

/-- The store stays in order when a write is queued. -/
theorem InOrder.queue (hs : s.InOrder) {m : Mutation} (hm : m.PutsValues) :
    ({ s with queue := s.queue ++ [s.batchOf m], nextBatchId := s.nextBatchId + 1 } :
      LocalStore).InOrder where
  remote := hs.remote
  synced := hs.synced
  puts b hb := (List.mem_append.mp hb).elim (hs.puts b)
    (fun hb => List.mem_singleton.mp hb ▸ s.putsValues_batchOf hm)
  ordered := List.pairwise_append.mpr ⟨hs.ordered, List.pairwise_singleton _ _,
    fun b hb c hc => List.mem_singleton.mp hc ▸ hs.fresh b hb⟩
  fresh b hb := by
    rcases List.mem_append.mp hb with hb | hb
    · exact Nat.lt_succ_of_lt (hs.fresh b hb)
    · rw [List.mem_singleton.mp hb]
      exact Nat.lt_succ_self s.nextBatchId

/-- **A write is made of what is shown**, and its document is that of the writes
with it. -/
theorem IsShown.applyToLocalView (h : s.IsShown) (hs : s.InOrder) {m : Mutation}
    (hm : m.PutsValues) :
    Tracks s.remote ((s.batchOf m).applyToLocalView s.overlayedDocument)
      ∧ ((s.batchOf m).applyToLocalView s.overlayedDocument).fst
        = (localView s.remote (s.queue ++ [s.batchOf m])).fst := by
  obtain ⟨htracks, hdoc⟩ := h.overlayedDocument hs
  refine ⟨htracks.foldl hs.remote (s.putsValues_batchOf hm), ?_⟩
  rw [localView, List.foldl_append]
  exact fst_foldl_applyToLocalView _ hdoc

/-- **The writes are shown with one more**, if the masks are kept. -/
theorem IsShown.writeLocally (h : s.IsShown) (hs : s.InOrder) {m : Mutation} (hm : m.PutsValues)
    (hkept : MasksKept ((s.batchOf m).applyToLocalView s.overlayedDocument)) :
    (s.writeLocally m).IsShown := by
  obtain ⟨htracks, hdoc⟩ := h.applyToLocalView hs hm
  refine isShown_saveOverlay (hs.queue hm) htracks hdoc ?_ (fun hlocal => ?_) hkept
  · rw [List.getLast?_append]
    rfl
  · -- what is shown with the write has not been written, nor has what it is made of
    refine h.overlay_eq_none (Bool.eq_false_iff.mpr (fun hc => Bool.eq_false_iff.mp hlocal ?_))
    exact hasLocalMutations_applyToLocalView _ ((h.overlayedDocument hs).2 ▸ hc)

/-! ### An answer -/

/-- The store without its first write, and without the overlay if that was saved
with it. -/
def withoutFirst (s : LocalStore) (remote : MutableDocument) : LocalStore :=
  { s with
    remote
    queue := s.queue.tail
    overlay := s.overlay.filter (fun o => some o.fst ≠ s.queue.head?.map MutationBatch.batchId) }

/-- **What an answer does**: the overlay is calculated again, if there are writes
left. -/
theorem removeMutationBatch_cases (hqueue : s.queue ≠ []) (remote : MutableDocument) :
    (s.queue.tail = [] ∧ s.removeMutationBatch remote = s.withoutFirst remote)
      ∨ ∃ c, s.queue.tail.getLast? = some c ∧ s.removeMutationBatch remote
        = (s.withoutFirst remote).saveOverlay c.batchId (localView remote s.queue.tail) := by
  obtain ⟨before, queue, overlay, nextBatchId⟩ := s
  cases queue with
  | nil => exact absurd rfl hqueue
  | cons b queue =>
    have hfilter : LocalStore.removeOverlaysForBatchId ⟨remote, queue, overlay, nextBatchId⟩ b.batchId
        = withoutFirst ⟨before, b :: queue, overlay, nextBatchId⟩ remote := by
      simp [LocalStore.removeOverlaysForBatchId, withoutFirst]
    show (queue = [] ∧ _) ∨ ∃ c, queue.getLast? = some c ∧ _
    simp only [LocalStore.removeMutationBatch, hfilter, recalculateAndSaveOverlays]
    cases hlast : queue.getLast? with
    | none => exact Or.inl ⟨List.getLast?_eq_none_iff.mp hlast, by simp [withoutFirst, hlast]⟩
    | some c => exact Or.inr ⟨c, rfl, by simp [withoutFirst, hlast]⟩

/-- The store stays in order without its first write. -/
theorem InOrder.withoutFirst (hs : s.InOrder) {remote : MutableDocument}
    (hremote : remote.value.InOrder) (hsynced : remote.hasLocalMutations = false) :
    (s.withoutFirst remote).InOrder where
  remote := hremote
  synced := hsynced
  puts b hb := hs.puts b (List.mem_of_mem_tail hb)
  ordered := hs.ordered.tail
  fresh b hb := hs.fresh b (List.mem_of_mem_tail hb)

section Answer

variable {remote : MutableDocument}

/-- Where the first write is the only one, the overlay was saved with it, and none
is left. -/
theorem IsShown.overlay_withoutFirst_of_nil (h : s.IsShown) (htail : s.queue.tail = []) :
    (s.withoutFirst remote).overlay = none := by
  obtain ⟨before, queue, overlay, nextBatchId⟩ := s
  cases overlay with
  | none => rfl
  | some overlay =>
    obtain ⟨hlast, -⟩ := h
    cases queue with
    | nil => exact nomatch hlast
    | cons b queue =>
      obtain rfl : queue = [] := htail
      have hid : b.batchId = overlay.fst := Option.some.inj hlast
      simp [withoutFirst, hid]

/-- Where another write is the last, the overlay was saved with that one, and is
left. -/
theorem IsShown.overlay_withoutFirst_of_last (h : s.IsShown) (hs : s.InOrder) {c : MutationBatch}
    (hlast : s.queue.tail.getLast? = some c) :
    (s.withoutFirst remote).overlay = s.overlay := by
  obtain ⟨before, queue, overlay, nextBatchId⟩ := s
  cases overlay with
  | none => rfl
  | some overlay =>
    obtain ⟨hid, -⟩ := h
    cases queue with
    | nil => exact nomatch hid
    | cons b queue =>
      have hlast : queue.getLast? = some c := hlast
      rw [List.getLast?_cons, hlast] at hid
      have hlt : b.batchId < c.batchId :=
        (List.pairwise_cons.mp hs.ordered).1 c (List.mem_of_getLast? hlast)
      have hne : overlay.fst ≠ b.batchId := by
        have hc : c.batchId = overlay.fst := Option.some.inj hid
        omega
      simp [withoutFirst, hne]

/-- The store stays in order when the first write has been answered. -/
theorem InOrder.removeMutationBatch (hs : s.InOrder) (hremote : remote.value.InOrder)
    (hsynced : remote.hasLocalMutations = false) (hqueue : s.queue ≠ []) :
    (s.removeMutationBatch remote).InOrder := by
  have hrest := hs.withoutFirst hremote hsynced
  rcases removeMutationBatch_cases hqueue remote with ⟨-, heq⟩ | ⟨c, -, heq⟩
  · exact heq ▸ hrest
  · exact heq ▸ hrest.saveOverlay

/-- **An answer shows the writes that are left**, where they are shown without the
first. -/
theorem IsShown.removeMutationBatch (h : s.IsShown) (hs : s.InOrder)
    (hremote : remote.value.InOrder) (hsynced : remote.hasLocalMutations = false)
    (hqueue : s.queue ≠ []) (hwithout : s.ShownWithout remote) :
    (s.removeMutationBatch remote).IsShown := by
  have hrest := hs.withoutFirst hremote hsynced
  rcases removeMutationBatch_cases hqueue remote with ⟨htail, heq⟩ | ⟨c, hlast, heq⟩
  · rw [heq, IsShown, h.overlay_withoutFirst_of_nil htail]
    show (localView remote s.queue.tail).fst.hasLocalMutations = false
    rw [htail]
    exact hsynced
  · rw [heq]
    refine isShown_saveOverlay hrest (Tracks.localView hrest.remote hrest.puts) rfl
      (congrArg _ hlast) (fun hlocal => ?_) hwithout.1
    -- there are writes left, so there was nothing before
    rw [h.overlay_withoutFirst_of_last hs hlast]
    refine h.overlay_eq_none ((hwithout.2 hlocal).resolve_left (fun hc => ?_))
    rw [hc] at hlast
    exact nomatch hlast

/-- **Where the writes are not shown without the first, something else is**: what an
overlay does not keep, or the overlay of writes that come to nothing now. -/
theorem IsShown.not_showsWrites_removeMutationBatch (h : s.IsShown) (hs : s.InOrder)
    (hremote : remote.value.InOrder) (hsynced : remote.hasLocalMutations = false)
    (hqueue : s.queue ≠ []) (hwithout : ¬ s.ShownWithout remote) :
    ¬ (s.removeMutationBatch remote).ShowsWrites := by
  have hrest := hs.withoutFirst hremote hsynced
  have htracks := Tracks.localView hrest.remote hrest.puts
  rcases removeMutationBatch_cases hqueue remote with ⟨htail, -⟩ | ⟨c, hlast, heq⟩
  · refine absurd ⟨fun mask hmask p hp => ?_, fun _ => Or.inl htail⟩ hwithout
    rw [htail] at hmask
    exact absurd (Option.some.inj hmask ▸ hp) List.not_mem_nil
  · rw [heq]
    by_cases hkept : MasksKept (localView remote s.queue.tail)
    · -- the overlay that is left is not of the first write
      obtain ⟨hlocal, hnot⟩ := Classical.not_imp.mp (fun hc => hwithout ⟨hkept, hc⟩)
      have hoverlay : (s.withoutFirst remote).overlay = s.overlay :=
        h.overlay_withoutFirst_of_last hs hlast
      cases hover : s.overlay with
      | none =>
        rw [IsShown, hover] at h
        exact absurd h (not_or.mp hnot).2
      | some overlay =>
        rw [IsShown, hover] at h
        obtain ⟨-, doc, hdoc, -⟩ := h
        exact not_showsWrites_of_stale htracks rfl hsynced hlocal (hoverlay.trans hover) hdoc
    · exact not_showsWrites_saveOverlay hrest htracks rfl hkept

end Answer

/-! ### The server's document -/

/-- The values transforms come to at the server are put in their fields. -/
theorem puts_serverTransformResults {transforms : List FieldTransform} (d : Fields)
    {results : List Value} (h : ∀ t ∈ transforms, t.path ≠ []) (hresults : ∀ v ∈ results, v.InOrder) :
    Puts (serverTransformResults transforms d results) :=
  (Puts.nil.foldl_insert (fun t ht => ⟨h t.fst (List.of_mem_zip ht).1,
    t.fst.transformation.inOrder_applyToRemoteDocument _ (hresults t.snd (List.of_mem_zip ht).2)⟩)
    rfl).1

/-- **The server's document is in order**, and not one that has been written here. -/
theorem inOrder_applyToRemoteDocument {m : Mutation} (hm : m.PutsValues) {doc : MutableDocument}
    (hdoc : doc.value.InOrder) {result : MutationResult}
    (hresult : ∀ v ∈ result.transformResults, v.InOrder) {remote : MutableDocument}
    (h : m.applyToRemoteDocument doc result = some remote) :
    remote.value.InOrder ∧ remote.hasLocalMutations = false := by
  have hputs := puts_serverTransformResults doc.value hm.path_ne_nil hresult
  cases m with
  | set value precondition transforms =>
    rw [applyToRemoteDocument] at h
    split at h
    · obtain rfl := Option.some.inj h
      exact ⟨(hputs.covers hm.1 (Covers.refl value)).2, rfl⟩
    · exact nomatch h
  | patch value mask precondition transforms =>
    rw [applyToRemoteDocument] at h
    split at h
    · split at h
      · obtain rfl := Option.some.inj h
        have hpatch := ((puts_getPatch hm.1 hm.2.1).1.covers hdoc (Covers.refl doc.value)).2
        exact ⟨(hputs.covers hpatch (Covers.refl _)).2, rfl⟩
      · exact nomatch h
    · obtain rfl := Option.some.inj h
      exact ⟨Fields.inOrder_nil, rfl⟩
  | delete precondition =>
    rw [applyToRemoteDocument] at h
    split at h
    · obtain rfl := Option.some.inj h
      exact ⟨Fields.inOrder_nil, rfl⟩
    · exact nomatch h

/-- The document of the server after an acknowledgement is in order, and not
marked as written. -/
theorem InOrder.acknowledged (hs : s.InOrder) {result : MutationResult}
    (hresult : ∀ v ∈ result.transformResults, v.InOrder) {remote : MutableDocument}
    (h : s.acknowledged result = some remote) :
    remote.value.InOrder ∧ remote.hasLocalMutations = false ∧ s.queue ≠ [] := by
  obtain ⟨before, queue, overlay, nextBatchId⟩ := s
  cases queue with
  | nil => exact nomatch h
  | cons b queue =>
    have hb : b.mutation.PutsValues := hs.puts b (List.mem_cons_self ..) b.mutation
      (List.mem_append_right _ (List.mem_singleton.mpr rfl))
    unfold LocalStore.acknowledged at h
    dsimp only at h
    split at h
    · obtain ⟨horder, hsynced⟩ := inOrder_applyToRemoteDocument hb hs.remote hresult h
      exact ⟨horder, hsynced, List.cons_ne_nil b queue⟩
    · obtain rfl := Option.some.inj h
      exact ⟨hs.remote, hs.synced, List.cons_ne_nil b queue⟩

/-! ### A run -/

/-- **What a step does**: it is a write, or an answer to the first write. -/
theorem step_cases (hs : s.InOrder) {a : Action} (ha : a.PutsValues) {s' : LocalStore}
    (h : s.step a = some s') :
    (∃ m, m.PutsValues ∧ s' = s.writeLocally m
      ∧ (s.Shows a ↔ MasksKept ((s.batchOf m).applyToLocalView s.overlayedDocument)))
    ∨ ∃ remote, (remote.value.InOrder ∧ remote.hasLocalMutations = false) ∧ s.queue ≠ []
      ∧ s' = s.removeMutationBatch remote ∧ (s.Shows a ↔ s.ShownWithout remote) := by
  cases a with
  | write m => exact Or.inl ⟨m, ha, (Option.some.inj h).symm, Iff.rfl⟩
  | acknowledge result =>
    obtain ⟨remote, hremote, rfl⟩ := Option.map_eq_some_iff.mp h
    obtain ⟨horder, hsynced, hqueue⟩ := hs.acknowledged ha hremote
    refine Or.inr ⟨remote, ⟨horder, hsynced⟩, hqueue, rfl, fun hshows => hshows remote hremote,
      fun hwithout remote' hremote' => ?_⟩
    obtain rfl := Option.some.inj (hremote.symm.trans hremote')
    exact hwithout
  | reject =>
    obtain ⟨before, queue, overlay, nextBatchId⟩ := s
    cases queue with
    | nil => exact nomatch h
    | cons b queue =>
      exact Or.inr ⟨before, ⟨hs.remote, hs.synced⟩, List.cons_ne_nil b queue,
        (Option.some.inj h).symm, Iff.rfl⟩

/-- **A step that shows the writes** leaves them shown. -/
theorem IsShown.step (hs : s.InOrder) (h : s.IsShown) {a : Action} (ha : a.PutsValues)
    (hshows : s.Shows a) {s' : LocalStore} (hstep : s.step a = some s') :
    s'.InOrder ∧ s'.IsShown := by
  rcases step_cases hs ha hstep with ⟨m, hm, rfl, hiff⟩ | ⟨remote, hremote, hqueue, rfl, hiff⟩
  · exact ⟨(hs.queue hm).saveOverlay, h.writeLocally hs hm (hiff.mp hshows)⟩
  · exact ⟨hs.removeMutationBatch hremote.1 hremote.2 hqueue,
      h.removeMutationBatch hs hremote.1 hremote.2 hqueue (hiff.mp hshows)⟩

/-- **A step that does not show the writes** leaves something else shown. -/
theorem IsShown.not_showsWrites_step (hs : s.InOrder) (h : s.IsShown) {a : Action}
    (ha : a.PutsValues) (hshows : ¬ s.Shows a) {s' : LocalStore} (hstep : s.step a = some s') :
    ¬ s'.ShowsWrites := by
  rcases step_cases hs ha hstep with ⟨m, hm, rfl, hiff⟩ | ⟨remote, hremote, hqueue, rfl, hiff⟩
  · obtain ⟨htracks, hdoc⟩ := h.applyToLocalView hs hm
    exact not_showsWrites_saveOverlay (hs.queue hm) htracks hdoc
      (fun hkept => hshows (hiff.mpr hkept))
  · exact h.not_showsWrites_removeMutationBatch hs hremote.1 hremote.2 hqueue
      (fun hwithout => hshows (hiff.mpr hwithout))

/-- A document of which no writes are under way is shown as the server has it. -/
theorem isShown_synced {remote : MutableDocument} (hremote : remote.value.InOrder)
    (hsynced : remote.hasLocalMutations = false) (nextBatchId : ℕ) :
    (synced remote nextBatchId).InOrder ∧ (synced remote nextBatchId).IsShown :=
  ⟨⟨hremote, hsynced, fun _ hb => absurd hb List.not_mem_nil, List.Pairwise.nil,
    fun _ hb => absurd hb List.not_mem_nil⟩, hsynced⟩

/-- **What is shown is what the server has with the writes that are left**, along a
run from a document of which no writes are under way, exactly when each write keeps
the masks, and so does each answer, which leaves no overlay behind where the writes
that are left come to nothing. -/
theorem shows_writes_iff {remote : MutableDocument} (hremote : remote.value.InOrder)
    (hsynced : remote.hasLocalMutations = false) (nextBatchId : ℕ) {actions : List Action}
    (hactions : ∀ a ∈ actions, a.PutsValues) :
    Runs.Along LocalStore.step ShowsWrites (synced remote nextBatchId) actions
      ↔ Runs.Meets LocalStore.step Shows (synced remote nextBatchId) actions :=
  Runs.along_iff_meets_of_meets (I := fun s => s.InOrder ∧ s.IsShown)
    (D := fun _ a => a.PutsValues) (fun _ hs => hs.2.showsWrites hs.1)
    (fun _ _ _ hs ha hshows hstep => hs.2.step hs.1 ha hshows hstep)
    (fun _ _ _ hs ha hshows hstep => hs.2.not_showsWrites_step hs.1 ha hshows hstep)
    (isShown_synced hremote hsynced nextBatchId) (Runs.meets_of_forall _ hactions)

/-- A cart is put, its items are changed, and the first write is rejected: the patch
comes to nothing, and the cart is shown all the same. -/
theorem not_along_showsWrites :
    ¬ Runs.Along LocalStore.step ShowsWrites (synced .invalidDocument 1)
      [.write (.set [("items", .array [.string "1"])] .none []),
        .write (.patch [("items", .array [])] [["items"]] (.exists true) []), .reject] := by
  have hputs : ∀ a ∈ [Action.write (.set [("items", .array [.string "1"])] .none []),
      .write (.patch [("items", .array [])] [["items"]] (.exists true) []), .reject],
      a.PutsValues := by
    rintro a ha
    rcases List.mem_cons.mp ha with rfl | ha
    · exact Mutation.putsValues_set_singleton "items" (.array _) .none
    · rcases List.mem_cons.mp ha with rfl | ha
      · exact Mutation.putsValues_patch_singleton "items" (.array _) (.exists true)
      · obtain rfl := List.mem_singleton.mp ha
        trivial
  rw [shows_writes_iff Fields.inOrder_nil rfl 1 hputs]
  intro h
  obtain ⟨-, h⟩ := h _ rfl
  obtain ⟨-, h⟩ := h _ rfl
  obtain ⟨⟨-, hleaves⟩, -⟩ := h _ rfl
  rcases hleaves rfl with hnil | hlocal
  · exact absurd hnil (List.cons_ne_nil _ _)
  · exact absurd hlocal (by decide)

end LocalStore

end Firestore
