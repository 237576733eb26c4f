import Enmart.Firestore.LocalStore

/-!
# Writes of fields, and of fields of maps

The paths of the application's writes have one name, or two. The masks of such writes
are always kept: what is two names deep is in a field, and a field is in the
document, which is a map. So what is shown along a run is what the server has with
the writes that are left, but for overlays that stay behind when an answer comes
(`LocalStore.shows_flat_writes_iff`).
-/

namespace Firestore

open ObjectValue Mutation

/-- A mask is flat when its paths have no more than two names. -/
def FieldMask.Flat (mask : FieldMask) : Prop := ∀ p ∈ mask, p.length ≤ 2

/-- A write is flat when the paths it patches and those of its transforms have no
more than two names. -/
structure Mutation.Flat (m : Mutation) : Prop where
  mask : ∀ mask, m.fieldMask = some mask → mask.Flat
  transforms : ∀ t ∈ m.fieldTransforms, t.path.length ≤ 2

/-- A document is flat when the paths patched in it have no more than two names.
-/
def FlatDocument (doc : MutableDocument × Option FieldMask) : Prop :=
  ∀ mask, doc.snd = some mask → mask.Flat

namespace FlatDocument

variable {doc : MutableDocument × Option FieldMask}

/-- **The mask of a flat document is kept**: the field that a field was in is the
document, or a name of it. -/
theorem masksKept (h : FlatDocument doc) : LocalStore.MasksKept doc := by
  intro mask hmask p hp _ _
  have hlen := h mask hmask p hp
  have hnil : p.dropLast.dropLast = [] := by
    apply List.eq_nil_of_length_eq_zero
    rw [List.length_dropLast, List.length_dropLast]
    omega
  rw [hnil]
  rfl

/-- A flat write keeps a document flat. -/
theorem applyToLocalView (h : FlatDocument doc) {m : Mutation} (hm : m.Flat) :
    FlatDocument (m.applyToLocalView doc.fst doc.snd) := by
  obtain ⟨d, previousMask⟩ := doc
  cases m with
  | set value precondition transforms =>
    rw [Mutation.applyToLocalView]
    split
    · exact fun mask hmask => absurd hmask.symm (Option.some_ne_none mask)
    · exact h
  | patch value mask precondition transforms =>
    rw [Mutation.applyToLocalView]
    split
    · intro mask' hmask' p hp
      obtain ⟨previous, hprevious, rfl⟩ := Option.map_eq_some_iff.mp hmask'
      rcases FieldMask.mem_foldl_insert.mp hp with hp | hp
      · exact h previous hprevious p hp
      · rcases List.mem_append.mp hp with hp | hp
        · exact hm.mask mask rfl p hp
        · obtain ⟨t, ht, rfl⟩ := List.mem_map.mp hp
          exact hm.transforms t ht
    · exact h
  | delete precondition =>
    rw [Mutation.applyToLocalView]
    split
    · exact fun mask hmask => absurd hmask.symm (Option.some_ne_none mask)
    · exact h

/-- Several flat writes keep a document flat. -/
theorem foldl (h : FlatDocument doc) {ms : List Mutation} (hms : ∀ m ∈ ms, m.Flat) :
    FlatDocument (ms.foldl (fun doc m => m.applyToLocalView doc.fst doc.snd) doc) :=
  List.foldlRecOn (motive := FlatDocument) ms _ h
    (fun _ hdoc m hm => hdoc.applyToLocalView (hms m hm))

/-- The overlay of a flat document is flat: its paths are those of the document,
or shorter. -/
theorem calculateOverlayMutation (h : FlatDocument doc) {o : Mutation}
    (ho : Mutation.calculateOverlayMutation doc.fst doc.snd = some o) :
    ∀ mask, o.fieldMask = some mask → mask.Flat := by
  obtain ⟨d, mask⟩ := doc
  rw [Mutation.calculateOverlayMutation.eq_def] at ho
  split at ho
  · cases mask with
    | none =>
      obtain rfl := Option.some.inj ho
      split <;> exact fun mask hmask => absurd hmask.symm (Option.some_ne_none mask)
    | some mask =>
      obtain rfl := Option.some.inj ho
      intro mask' hmask'
      obtain rfl := Option.some.inj hmask'
      refine List.foldlRecOn (motive := fun overlay : Fields × FieldMask => overlay.snd.Flat) mask _
        (fun p hp => absurd hp List.not_mem_nil) (fun overlay hoverlay p hp => ?_)
      rw [overlayStep]
      split
      · exact hoverlay
      · intro q hq
        rcases FieldMask.mem_insert.mp hq with rfl | hq
        · exact (overlayPath_above d.value p).length_le.trans (h mask rfl p hp)
        · exact hoverlay q hq
  · exact absurd ho.symm (Option.some_ne_none o)

end FlatDocument

/-- A batch is flat when each of its writes is. -/
def MutationBatch.Flat (b : MutationBatch) : Prop := ∀ m ∈ b.baseMutations ++ [b.mutation], m.Flat

/-- The pending writes leave a flat document, if they are flat. -/
theorem FlatDocument.localView (remote : MutableDocument) {queue : List MutationBatch}
    (hqueue : ∀ b ∈ queue, b.Flat) : FlatDocument (localView remote queue) := by
  refine List.foldlRecOn (motive := FlatDocument) queue _ (fun mask hmask p hp => ?_)
    (fun _ hdoc b hb => hdoc.foldl (hqueue b hb))
  exact absurd (Option.some.inj hmask ▸ hp) List.not_mem_nil

/-! ## The numbers that increments start from -/

/-- Setting a number at a path with no more than two names makes the document no
deeper than that. -/
theorem length_le_of_look_set {d : Fields} (hd : d.InOrder)
    (hdepth : ∀ q, look d q ≠ .absent → q.length ≤ 2) {path : FieldPath} (hpath : path ≠ [])
    (hlen : path.length ≤ 2) (n : NumericValue) (q : FieldPath)
    (hq : look (ObjectValue.set d path n.toValue) q ≠ .absent) : q.length ≤ 2 := by
  have hscalar : ∀ fs, n.toValue ≠ .map fs := by cases n <;> exact nofun
  by_cases hbelow : path <+: q
  · obtain ⟨r, rfl⟩ := hbelow
    cases r with
    | nil => rwa [List.append_nil]
    | cons k r =>
      rw [look_set_append hd hpath, Value.look_cons_of_not_map hscalar] at hq
      exact absurd rfl hq
  · by_cases habove : q <+: path
    · exact habove.length_le.trans hlen
    · rw [look_set_apart hd hbelow habove] at hq
      exact hdepth q hq

/-- The document of the numbers that increments start from is no deeper than two
names. -/
theorem length_le_of_extractTransformBaseValue {m : Mutation} (hm : m.Flat)
    (hpaths : ∀ t ∈ m.fieldTransforms, t.path ≠ []) {doc : MutableDocument} {baseValue : Fields}
    (h : m.extractTransformBaseValue doc = some baseValue) :
    baseValue.InOrder ∧ ∀ q, look baseValue q ≠ .absent → q.length ≤ 2 := by
  have hnil : Fields.InOrder [] ∧ ∀ q, look [] q ≠ .absent → q.length ≤ 2 := by
    refine ⟨Fields.inOrder_nil, fun q hq => ?_⟩
    cases q with
    | nil => exact Nat.zero_le 2
    | cons k q => exact absurd rfl hq
  refine of_extractTransformBaseValue
    (P := fun b => b.InOrder ∧ ∀ q, look b q ≠ .absent → q.length ≤ 2) hnil (fun b hb t ht n => ?_) h
  exact ⟨inOrder_set hb.1 n.inOrder_toValue (hpaths t ht),
    length_le_of_look_set hb.1 hb.2 (hpaths t ht) (hm.transforms t ht) n⟩

namespace LocalStore

variable {s : LocalStore}

/-- A flat write is queued as a flat batch. -/
theorem flat_batchOf (s : LocalStore) {m : Mutation} (hm : m.Flat)
    (hpaths : ∀ t ∈ m.fieldTransforms, t.path ≠ []) : (s.batchOf m).Flat := by
  intro n hn
  rcases List.mem_append.mp hn with hn | hn
  · unfold batchOf at hn
    cases hbase : m.extractTransformBaseValue s.overlayedDocument.fst with
    | none =>
      rw [hbase] at hn
      exact absurd hn List.not_mem_nil
    | some baseValue =>
      rw [hbase] at hn
      obtain rfl := List.mem_singleton.mp hn
      obtain ⟨horder, hdepth⟩ := length_le_of_extractTransformBaseValue hm hpaths hbase
      refine ⟨fun mask hmask p hp => ?_, fun t ht => absurd ht List.not_mem_nil⟩
      obtain rfl := Option.some.inj hmask
      refine hdepth p (fun hc => (Value.get_of_mem_fieldMask horder p hp).2 ?_)
      exact look_eq_absent.mp hc
  · exact List.mem_singleton.mp hn ▸ hm

/-- The client is flat when the paths of its queue and of its overlay have no more
than two names. -/
structure IsFlat (s : LocalStore) : Prop where
  queue : ∀ b ∈ s.queue, b.Flat
  overlay : ∀ batchId o, s.overlay = some (batchId, o) →
    ∀ mask, o.fieldMask = some mask → mask.Flat

/-- The document a write is made of is flat. -/
theorem IsFlat.overlayedDocument (h : s.IsFlat) : FlatDocument s.overlayedDocument := by
  obtain ⟨remote, queue, overlay, nextBatchId⟩ := s
  cases overlay with
  | none => exact fun mask hmask p hp => absurd (Option.some.inj hmask ▸ hp) List.not_mem_nil
  | some overlay => exact h.overlay overlay.fst overlay.snd rfl

/-- Saving the overlay of a flat document keeps the client flat. -/
theorem IsFlat.saveOverlay (h : s.IsFlat) (batchId : ℕ) {doc : MutableDocument × Option FieldMask}
    (hdoc : FlatDocument doc) : (s.saveOverlay batchId doc).IsFlat := by
  rw [LocalStore.saveOverlay]
  split
  · next o ho =>
    refine ⟨h.queue, fun id o' ho' => ?_⟩
    obtain ⟨-, rfl⟩ := Prod.mk.inj (Option.some.inj ho')
    exact hdoc.calculateOverlayMutation ho
  · exact h

/-- A step is flat when the write it makes is. -/
def Action.Flat : Action → Prop
  | .write m => m.Flat
  | _ => True

/-- **A flat step keeps the client flat.** -/
theorem IsFlat.step (h : s.IsFlat) {a : Action} (ha : a.Flat) (hputs : a.PutsValues)
    {s' : LocalStore} (hstep : s.step a = some s') : s'.IsFlat := by
  have hremove (hqueue : s.queue ≠ []) (remote : MutableDocument) :
      (s.removeMutationBatch remote).IsFlat := by
    have hrest : (s.withoutFirst remote).IsFlat :=
      ⟨fun b hb => h.queue b (List.mem_of_mem_tail hb),
        fun id o ho => h.overlay id o (Option.filter_eq_some_iff.mp ho).1⟩
    rcases removeMutationBatch_cases hqueue remote with ⟨-, heq⟩ | ⟨c, -, heq⟩
    · exact heq ▸ hrest
    · exact heq ▸ hrest.saveOverlay c.batchId (FlatDocument.localView remote hrest.queue)
  cases a with
  | write m =>
    obtain rfl := Option.some.inj hstep
    have hbatch := s.flat_batchOf ha (Mutation.PutsValues.path_ne_nil hputs)
    have hqueued : IsFlat { s with
        queue := s.queue ++ [s.batchOf m]
        nextBatchId := s.nextBatchId + 1 } :=
      ⟨fun b hb => (List.mem_append.mp hb).elim (h.queue b)
        (fun hb => List.mem_singleton.mp hb ▸ hbatch), h.overlay⟩
    exact hqueued.saveOverlay _ (h.overlayedDocument.foldl hbatch)
  | acknowledge result =>
    obtain ⟨remote, hremote, rfl⟩ := Option.map_eq_some_iff.mp hstep
    refine hremove (fun hqueue => ?_) remote
    rw [acknowledged, hqueue] at hremote
    exact nomatch hremote
  | reject =>
    rw [LocalStore.step, rejectBatch] at hstep
    split at hstep
    · next b queue hqueue =>
      obtain rfl := Option.some.inj hstep
      exact hremove (by rw [hqueue]; exact List.cons_ne_nil b queue) s.remote
    · exact nomatch hstep

/-- No overlay stays behind when an answer comes. -/
def AnswerLeavesNone (s : LocalStore) : Action → Prop
  | .write _ => True
  | .acknowledge result => ∀ remote, s.acknowledged result = some remote → s.LeavesNone remote
  | .reject => s.LeavesNone s.remote

/-- **A flat step shows the writes** exactly when no overlay stays behind: the
masks are always kept. -/
theorem IsFlat.shows_iff (h : s.IsFlat) {a : Action} (ha : a.Flat) (hputs : a.PutsValues) :
    s.Shows a ↔ s.AnswerLeavesNone a := by
  have hleft (remote : MutableDocument) : MasksKept (localView remote s.queue.tail) :=
    (FlatDocument.localView remote (fun b hb => h.queue b (List.mem_of_mem_tail hb))).masksKept
  cases a with
  | write m =>
    have hbatch := s.flat_batchOf ha (Mutation.PutsValues.path_ne_nil hputs)
    exact iff_of_true (h.overlayedDocument.foldl hbatch).masksKept trivial
  | acknowledge result =>
    exact forall_congr' (fun remote => forall_congr' (fun _ => and_iff_right (hleft remote)))
  | reject => exact and_iff_right (hleft s.remote)

/-- **The application's writes are shown**, along a run from a document of which none
are under way, exactly when no overlay stays behind when an answer comes. -/
theorem shows_flat_writes_iff {remote : MutableDocument} (hremote : remote.value.InOrder)
    (hsynced : remote.hasLocalMutations = false) (nextBatchId : ℕ) {actions : List Action}
    (hactions : ∀ a ∈ actions, a.PutsValues ∧ a.Flat) :
    Runs.Along LocalStore.step ShowsWrites (synced remote nextBatchId) actions
      ↔ Runs.Meets LocalStore.step AnswerLeavesNone (synced remote nextBatchId) actions :=
  Runs.along_iff_meets_of_meets (I := fun s => (s.InOrder ∧ s.IsShown) ∧ s.IsFlat)
    (D := fun _ a => a.PutsValues ∧ a.Flat) (fun _ hs => hs.1.2.showsWrites hs.1.1)
    (fun _ _ _ hs ha hleaves hstep =>
      ⟨hs.1.2.step hs.1.1 ha.1 ((hs.2.shows_iff ha.2 ha.1).mpr hleaves) hstep,
        hs.2.step ha.2 ha.1 hstep⟩)
    (fun _ _ _ hs ha hleaves hstep => hs.1.2.not_showsWrites_step hs.1.1 ha.1
      (fun hshows => hleaves ((hs.2.shows_iff ha.2 ha.1).mp hshows)) hstep)
    ⟨isShown_synced hremote hsynced nextBatchId,
      ⟨fun _ hb => absurd hb List.not_mem_nil, fun _ _ ho => nomatch ho⟩⟩
    (Runs.meets_of_forall _ hactions)

/-- A cart is put and its items are changed, and the server acknowledges the one and
the other. -/
theorem along_showsWrites_acknowledged :
    Runs.Along LocalStore.step ShowsWrites (synced .invalidDocument 1)
      [.write (.set [("items", .array [.string "1"])] .none []),
        .write (.patch [("items", .array [])] [["items"]] (.exists true) []),
        .acknowledge ⟨⟨1⟩, []⟩, .acknowledge ⟨⟨2⟩, []⟩] := by
  have hactions : ∀ a ∈ [Action.write (.set [("items", .array [.string "1"])] .none []),
      .write (.patch [("items", .array [])] [["items"]] (.exists true) []),
      .acknowledge ⟨⟨1⟩, []⟩, .acknowledge ⟨⟨2⟩, []⟩], a.PutsValues ∧ a.Flat := by
    intro a ha
    rcases List.mem_cons.mp ha with rfl | ha
    · exact ⟨Mutation.putsValues_set_singleton "items" (.array _) .none,
        fun _ h => absurd h.symm (Option.some_ne_none _), fun _ ht => absurd ht List.not_mem_nil⟩
    · rcases List.mem_cons.mp ha with rfl | ha
      · refine ⟨Mutation.putsValues_patch_singleton "items" (.array _) (.exists true),
          fun mask hmask p hp => ?_, fun _ ht => absurd ht List.not_mem_nil⟩
        obtain rfl := Option.some.inj hmask
        obtain rfl := List.mem_singleton.mp hp
        decide
      · rcases List.mem_cons.mp ha with rfl | ha
        · exact ⟨fun _ hv => absurd hv List.not_mem_nil, trivial⟩
        · obtain rfl := List.mem_singleton.mp ha
          exact ⟨fun _ hv => absurd hv List.not_mem_nil, trivial⟩
  rw [shows_flat_writes_iff Fields.inOrder_nil rfl 1 hactions]
  intro s₁ h₁
  obtain rfl := Option.some.inj h₁
  refine ⟨trivial, fun s₂ h₂ => ?_⟩
  obtain rfl := Option.some.inj h₂
  refine ⟨trivial, fun s₃ h₃ => ?_⟩
  obtain rfl := Option.some.inj h₃
  refine ⟨fun remote hremote hnone => ?_, fun _ _ => ⟨fun _ _ _ => Or.inl rfl, trivial⟩⟩
  -- the patch that is left has an effect
  obtain rfl := Option.some.inj hremote
  exact absurd hnone (by decide)

end LocalStore

end Firestore
