import Enmart.Firestore.Overlay

/-!
# What writes make of a document

The writes that have not been answered are made of what the server has, one after
the other (`localView`). Those that delete no field make of it a document that
differs only in the fields that have been patched, or one that has been set, or none
(`Tracks`).

An increment starts from the number that was shown when it was made, which is put
before it: it is the same when the writes are made again.
-/

namespace Firestore

open ObjectValue Mutation

/-- The fields of a value that are no maps, or maps without fields, by their
paths. -/
def Value.fieldMask : Value → FieldMask
  | .map fs => fieldMasks fs
  | _ => []
where
  fieldMasks : List (String × Value) → FieldMask
    | [] => []
    | (k, v) :: fs =>
      (if v.fieldMask = [] then [[k]] else v.fieldMask.map (fun p => k :: p)) ++ fieldMasks fs

/-- **A write that has not been answered**, kept with the numbers that its
increments started from. -/
structure MutationBatch where
  batchId : ℕ
  baseMutations : List Mutation
  mutation : Mutation

/-- The document after the writes of a batch: first the numbers are put, then the
write is made. -/
def MutationBatch.applyToLocalView (b : MutationBatch)
    (doc : MutableDocument × Option FieldMask) : MutableDocument × Option FieldMask :=
  (b.baseMutations ++ [b.mutation]).foldl (fun doc m => m.applyToLocalView doc.fst doc.snd) doc

/-- **What the writes make of what the server has**, with the fields that have been
patched. -/
def localView (remote : MutableDocument) (queue : List MutationBatch) :
    MutableDocument × Option FieldMask :=
  queue.foldl (fun doc b => b.applyToLocalView doc) (remote, some [])

/-! ## What writes put -/

/-- Changes put values if none of them deletes a field, and their paths and values
are proper. -/
def Puts (data : TransformMap) : Prop := Proper data ∧ ∀ c ∈ data, c.snd ≠ none

namespace Puts

variable {data : TransformMap}

/-- No changes put values, trivially. -/
theorem nil : Puts [] :=
  ⟨fun _ h => absurd h List.not_mem_nil, fun _ h => absurd h List.not_mem_nil⟩

/-- Changes that put values delete nothing. -/
theorem deletesInVain (h : Puts data) (d : Fields) : DeletesInVain d data := by
  obtain ⟨-, hvalues⟩ := h
  induction data generalizing d with
  | nil => trivial
  | cons c data ih =>
    obtain ⟨hc, hvalues⟩ := List.forall_mem_cons.mp hvalues
    exact ⟨fun hnone => absurd hnone hc, ih _ hvalues⟩

/-- **Values are put**, and cover what they change. -/
theorem covers (h : Puts data) {mask : Set FieldPath} {base d : Fields} (hd : d.InOrder)
    (hcovers : Covers mask base d) :
    Covers (mask ∪ {p | p ∈ data.map Prod.fst}) base (setAll d data)
      ∧ (setAll d data).InOrder := by
  rw [setAll_eq_foldl hd h.1 (h.deletesInVain d)]
  exact hcovers.foldl hd h.1 h.2

/-- Changes that put values still do with one value more. -/
theorem insert (h : Puts data) {path : FieldPath} (hpath : path ≠ []) {v : Value}
    (hv : v.InOrder) : Puts (OrderedSet.insert FieldPath.Before Prod.fst (path, some v) data) := by
  refine ⟨fun c hc => ?_, fun c hc => ?_⟩
  · rcases OrderedSet.mem_insert_imp hc with rfl | hc
    · exact ⟨hpath, fun w hw => Option.some.inj hw ▸ hv⟩
    · exact h.1 c hc
  · rcases OrderedSet.mem_insert_imp hc with rfl | hc
    · exact nofun
    · exact h.2 c hc

end Puts

/-- With one change more, the fields that are changed are the field of that change
and those from before. -/
theorem mem_map_fst_insert {data : TransformMap} {c : FieldPath × Option Value} {p : FieldPath} :
    p ∈ (OrderedSet.insert FieldPath.Before Prod.fst c data).map Prod.fst
      ↔ p = c.fst ∨ p ∈ data.map Prod.fst := by
  constructor
  · intro h
    obtain ⟨e, he, rfl⟩ := List.mem_map.mp h
    exact (OrderedSet.mem_insert_imp he).imp (congrArg Prod.fst) List.mem_map_of_mem
  · intro h
    by_cases hp : p = c.fst
    · exact hp ▸ List.mem_map_of_mem (OrderedSet.mem_insert_self c data)
    · obtain ⟨e, he, rfl⟩ := List.mem_map.mp (h.resolve_left hp)
      exact List.mem_map_of_mem (OrderedSet.mem_insert_of_ne he hp)

/-- **A write puts values** if they are in order, each field of its mask has one,
and its transforms are of fields. -/
def Mutation.PutsValues : Mutation → Prop
  | .set value _ transforms => value.InOrder ∧ ∀ t ∈ transforms, t.path ≠ []
  | .patch value mask _ transforms =>
    value.InOrder ∧ (∀ p ∈ mask, p ≠ [] ∧ ObjectValue.get value p ≠ none)
      ∧ ∀ t ∈ transforms, t.path ≠ []
  | .delete _ => True

/-- Setting a document of one field puts values. -/
theorem Mutation.putsValues_set_singleton (k : String) {v : Value} (hv : v.InOrder)
    (precondition : Precondition) : (Mutation.set [(k, v)] precondition []).PutsValues :=
  ⟨Fields.inOrder_singleton k hv, fun _ ht => absurd ht List.not_mem_nil⟩

/-- Patching one field with a value puts values. -/
theorem Mutation.putsValues_patch_singleton (k : String) {v : Value} (hv : v.InOrder)
    (precondition : Precondition) : (Mutation.patch [(k, v)] [[k]] precondition []).PutsValues := by
  refine ⟨Fields.inOrder_singleton k hv, fun p hp => ?_, fun _ ht => absurd ht List.not_mem_nil⟩
  obtain rfl := List.mem_singleton.mp hp
  refine ⟨List.cons_ne_nil _ _, ?_⟩
  show (Fields.get? [(k, v)] k).bind (fun w => w.get []) ≠ none
  rw [Fields.get?_cons, if_pos rfl]
  exact Option.some_ne_none v

/-- The patch of a write that puts values does, in the fields of its mask. -/
theorem puts_getPatch {value : Fields} {mask : FieldMask} (hvalue : value.InOrder)
    (hmask : ∀ p ∈ mask, p ≠ [] ∧ ObjectValue.get value p ≠ none) :
    Puts (getPatch value mask) ∧ (getPatch value mask).map Prod.fst = mask := by
  have hfilter : mask.filter (fun path => decide (path ≠ [])) = mask :=
    List.filter_eq_self.mpr (fun p hp => decide_eq_true (hmask p hp).1)
  rw [getPatch, hfilter]
  refine ⟨⟨fun c hc => ?_, fun c hc => ?_⟩, ?_⟩
  · obtain ⟨p, hp, rfl⟩ := List.mem_map.mp hc
    exact ⟨(hmask p hp).1, fun v hv => inOrder_of_get hvalue hv⟩
  · obtain ⟨p, hp, rfl⟩ := List.mem_map.mp hc
    exact (hmask p hp).2
  · rw [List.map_map]
    exact List.map_id' mask

/-- Values are put for several fields. -/
theorem Puts.foldl_insert {β : Type} {path : β → FieldPath} {f : β → Value} {l : List β}
    (hl : ∀ b ∈ l, path b ≠ [] ∧ (f b).InOrder) {data results : TransformMap} (h : Puts data)
    (hresults : l.foldl (fun results b =>
      OrderedSet.insert FieldPath.Before Prod.fst (path b, some (f b)) results) data = results) :
    Puts results ∧ ∀ p, p ∈ results.map Prod.fst ↔ p ∈ data.map Prod.fst ∨ p ∈ l.map path := by
  induction l generalizing data with
  | nil => exact hresults ▸ ⟨h, fun p => (or_iff_left List.not_mem_nil).symm⟩
  | cons b l ih =>
    obtain ⟨⟨hpath, hb⟩, hl⟩ := List.forall_mem_cons.mp hl
    obtain ⟨hputs, hmem⟩ := ih hl (h.insert hpath hb) hresults
    refine ⟨hputs, fun p => (hmem p).trans ?_⟩
    rw [mem_map_fst_insert, List.map_cons, List.mem_cons]
    exact or_assoc.trans or_left_comm

/-- The values transforms come to here are put in their fields. -/
theorem puts_localTransformResults {transforms : List FieldTransform} (d : Fields)
    (h : ∀ t ∈ transforms, t.path ≠ []) :
    Puts (localTransformResults transforms d)
      ∧ ∀ p, p ∈ (localTransformResults transforms d).map Prod.fst
        ↔ p ∈ transforms.map FieldTransform.path := by
  obtain ⟨hputs, hmem⟩ := Puts.nil.foldl_insert 
    (fun t ht => ⟨h t ht, t.transformation.inOrder_applyToLocalView (ObjectValue.get d t.path)⟩) rfl
  exact ⟨hputs, fun p => (hmem p).trans (or_iff_right List.not_mem_nil)⟩

/-! ## What writes make of a document -/

/-- A mask with several fields put in has these and those it had. -/
theorem FieldMask.mem_foldl_insert {mask : FieldMask} {paths : List FieldPath} {p : FieldPath} :
    p ∈ paths.foldl (fun acc p => FieldMask.insert p acc) mask ↔ p ∈ mask ∨ p ∈ paths := by
  induction paths generalizing mask with
  | nil => exact (or_iff_left List.not_mem_nil).symm
  | cons q paths ih =>
    rw [List.foldl_cons, ih, mem_insert, List.mem_cons]
    exact or_assoc.trans or_left_comm

/-- **What writes can have made** of what the server has: nothing; a document whose
fields are those of the server but for those that have been patched; a document
that has been set; none. -/
inductive Tracks (remote : MutableDocument) : MutableDocument × Option FieldMask → Prop where
  | untouched : Tracks remote (remote, some [])
  | patched {d : Fields} {mask : FieldMask} (hd : d.InOrder)
    (hcovers : Covers {p | p ∈ mask} remote.value d) :
    Tracks remote (⟨.foundDocument, .none, d, .hasLocalMutations⟩, some mask)
  | set {d : Fields} (hd : d.InOrder) :
    Tracks remote (⟨.foundDocument, .none, d, .hasLocalMutations⟩, none)
  | deleted : Tracks remote (⟨.noDocument, .none, [], .hasLocalMutations⟩, none)

namespace Tracks

variable {remote : MutableDocument} {doc : MutableDocument × Option FieldMask}

/-- What writes have made is in order. -/
theorem inOrder (h : Tracks remote doc) (hremote : remote.value.InOrder) :
    doc.fst.value.InOrder := by
  cases h with
  | untouched => exact hremote
  | patched hd _ => exact hd
  | set hd => exact hd
  | deleted => exact Fields.inOrder_nil

/-- The mask covers what the writes have changed. -/
theorem covers (h : Tracks remote doc) {mask : FieldMask} (hmask : doc.snd = some mask) :
    Covers {p | p ∈ mask} remote.value doc.fst.value := by
  cases h with
  | untouched =>
    obtain rfl := Option.some.inj hmask
    rw [show {p : FieldPath | p ∈ ([] : FieldMask)} = ∅ by simp]
    exact Covers.refl remote.value
  | patched hd hcovers => exact Option.some.inj hmask ▸ hcovers
  | set hd => exact nomatch hmask
  | deleted => exact nomatch hmask

/-- **A write made of what writes have made** leaves what writes can make. -/
theorem applyToLocalView (h : Tracks remote doc) (hremote : remote.value.InOrder) {m : Mutation}
    (hm : m.PutsValues) : Tracks remote (m.applyToLocalView doc.fst doc.snd) := by
  have hvalue := h.inOrder hremote
  obtain ⟨d, previousMask⟩ := doc
  cases m with
  | set value precondition transforms =>
    obtain ⟨hv, ht⟩ := hm
    rw [Mutation.applyToLocalView]
    split
    · exact set (((puts_localTransformResults d.value ht).1.covers hv (Covers.refl value)).2)
    · exact h
  | patch value mask precondition transforms =>
    obtain ⟨hv, hmask, ht⟩ := hm
    obtain ⟨hputs, hpaths⟩ := puts_getPatch hv hmask
    obtain ⟨hputs', hpaths'⟩ := puts_localTransformResults d.value ht
    rw [Mutation.applyToLocalView]
    split
    · have hall {changed : Set FieldPath} (hchanged : Covers changed remote.value d.value) :=
        hputs'.covers (hputs.covers hvalue hchanged).2 (hputs.covers hvalue hchanged).1
      cases previousMask with
      | none => exact set (hputs'.covers (hputs.covers hvalue (Covers.refl d.value)).2
          (hputs.covers hvalue (Covers.refl d.value)).1).2
      | some previous =>
        obtain ⟨hcovers, hd⟩ := hall (h.covers rfl)
        refine patched hd (hcovers.congr (fun p => ?_))
        rw [hpaths]
        simp only [Set.mem_ofPred_eq, Set.mem_union, FieldMask.mem_foldl_insert, List.mem_append,
          hpaths', or_assoc]
    · exact h
  | delete precondition =>
    rw [Mutation.applyToLocalView]
    split
    · exact deleted
    · exact h

/-- A document that has been written stays marked so by another write. -/
theorem hasLocalMutations (h : doc.fst.hasLocalMutations = true) (m : Mutation) :
    (m.applyToLocalView doc.fst doc.snd).fst.hasLocalMutations = true := by
  cases m <;>
  · rw [Mutation.applyToLocalView]
    split
    · rfl
    · exact h

/-- **Several writes, one after the other,** leave what writes can make. -/
theorem foldl (h : Tracks remote doc) (hremote : remote.value.InOrder) {ms : List Mutation}
    (hms : ∀ m ∈ ms, m.PutsValues) :
    Tracks remote (ms.foldl (fun doc m => m.applyToLocalView doc.fst doc.snd) doc) :=
  List.foldlRecOn (motive := Tracks remote) ms _ h
    (fun _ hdoc m hm => hdoc.applyToLocalView hremote (hms m hm))

/-- A document that is not marked as written is the one of the server. -/
theorem eq_of_not_hasLocalMutations (h : Tracks remote doc)
    (hlocal : doc.fst.hasLocalMutations = false) : doc = (remote, some []) := by
  cases h with
  | untouched => rfl
  | patched _ _ => exact nomatch hlocal
  | set _ => exact nomatch hlocal
  | deleted => exact nomatch hlocal

end Tracks

/-- The document a write leaves does not depend on the mask it comes with. -/
theorem fst_applyToLocalView (m : Mutation) (doc : MutableDocument) (mask mask' : Option FieldMask) :
    (m.applyToLocalView doc mask).fst = (m.applyToLocalView doc mask').fst := by
  cases m <;>
  · rw [Mutation.applyToLocalView, Mutation.applyToLocalView]
    split <;> rfl

/-- The document several writes leave does not depend on the mask they come with. -/
theorem fst_foldl_applyToLocalView (ms : List Mutation) {doc doc' : MutableDocument × Option FieldMask}
    (h : doc.fst = doc'.fst) :
    (ms.foldl (fun doc m => m.applyToLocalView doc.fst doc.snd) doc).fst
      = (ms.foldl (fun doc m => m.applyToLocalView doc.fst doc.snd) doc').fst := by
  induction ms generalizing doc doc' with
  | nil => exact h
  | cons m ms ih =>
    have hfst : (m.applyToLocalView doc.fst doc.snd).fst
        = (m.applyToLocalView doc'.fst doc'.snd).fst := by
      rw [h]
      exact fst_applyToLocalView m doc'.fst _ _
    exact ih hfst

/-! ## The numbers that increments start from -/

/-- A path in the mask of a map starts with one of its names, and goes on in the
mask of its value, if that has one. -/
theorem Value.mem_fieldMasks {fs : List (String × Value)} {p : FieldPath}
    (h : p ∈ fieldMask.fieldMasks fs) :
    ∃ k v q, (k, v) ∈ fs ∧ p = k :: q ∧ (q = [] ∨ q ∈ v.fieldMask) := by
  induction fs with
  | nil => exact absurd h List.not_mem_nil
  | cons f fs ih =>
    obtain ⟨k, v⟩ := f
    rw [fieldMask.fieldMasks] at h
    rcases List.mem_append.mp h with h | h
    · refine ⟨k, v, p.tail, List.mem_cons_self .., ?_⟩
      split at h
      · obtain rfl := List.mem_singleton.mp h
        exact ⟨rfl, Or.inl rfl⟩
      · obtain ⟨q, hq, rfl⟩ := List.mem_map.mp h
        exact ⟨rfl, Or.inr hq⟩
    · obtain ⟨l, w, q, hmem, hp⟩ := ih h
      exact ⟨l, w, q, List.mem_cons_of_mem _ hmem, hp⟩

/-- **Each path in the mask of a value leads to a value.** -/
theorem Value.get_of_mem_fieldMask {v : Value} (hv : v.InOrder) :
    ∀ p ∈ v.fieldMask, p ≠ [] ∧ v.get p ≠ none := by
  induction hv with
  | scalar s => exact fun p h => absurd h List.not_mem_nil
  | array vs => exact fun p h => absurd h List.not_mem_nil
  | @map fs hfs _ ih =>
    intro p h
    obtain ⟨k, v, q, hmem, rfl, hq⟩ := mem_fieldMasks h
    have hk := (Fields.mem_iff_get? hfs).mp hmem
    refine ⟨List.cons_ne_nil k q, ?_⟩
    show (Fields.get? fs k).bind (fun w => w.get q) ≠ none
    rw [hk]
    rcases hq with rfl | hq
    · exact nofun
    · exact (ih k v hk q hq).2

/-- **What the numbers that increments start from have in common**: what nothing has, and
what a number more keeps. -/
theorem of_extractTransformBaseValue {P : Fields → Prop} (hnil : P []) {m : Mutation}
    (hset : ∀ b, P b → ∀ t ∈ m.fieldTransforms, ∀ n : NumericValue,
      P (ObjectValue.set b t.path n.toValue)) {doc : MutableDocument} {baseValue : Fields}
    (h : m.extractTransformBaseValue doc = some baseValue) : P baseValue := by
  refine List.foldlRecOn (b := none) (motive := fun b : Option Fields => ∀ d, b = some d → P d)
    m.fieldTransforms _ (fun _ hb => absurd hb.symm (Option.some_ne_none _)) (fun b hb t ht => ?_)
    baseValue h
  rw [addBaseValue]
  split
  · rintro d ⟨⟩
    refine hset _ ?_ t ht _
    cases b with
    | none => exact hnil
    | some b => exact hb b rfl
  · exact hb

/-- The document of the numbers that increments start from is in order. -/
theorem inOrder_extractTransformBaseValue {m : Mutation} (hm : ∀ t ∈ m.fieldTransforms, t.path ≠ [])
    {doc : MutableDocument} {baseValue : Fields}
    (h : m.extractTransformBaseValue doc = some baseValue) : baseValue.InOrder :=
  of_extractTransformBaseValue Fields.inOrder_nil
    (fun _ hb t ht n => inOrder_set hb n.inOrder_toValue (hm t ht)) h

/-- A batch puts values if each of its writes does. -/
def MutationBatch.PutsValues (b : MutationBatch) : Prop :=
  ∀ m ∈ b.baseMutations ++ [b.mutation], m.PutsValues

/-- The transforms of a write that puts values have paths that are not empty. -/
theorem Mutation.PutsValues.path_ne_nil {m : Mutation} (h : m.PutsValues) :
    ∀ t ∈ m.fieldTransforms, t.path ≠ [] := by
  cases m with
  | set value precondition transforms => exact h.2
  | patch value mask precondition transforms => exact h.2.2
  | delete precondition => exact fun t ht => absurd ht List.not_mem_nil

/-- **The pending writes leave what writes can make** of the document of the
server. -/
theorem Tracks.localView {remote : MutableDocument} (hremote : remote.value.InOrder)
    {queue : List MutationBatch} (hqueue : ∀ b ∈ queue, b.PutsValues) :
    Tracks remote (localView remote queue) :=
  List.foldlRecOn (motive := Tracks remote) queue _ untouched
    (fun _ hdoc b hb => hdoc.foldl hremote (hqueue b hb))

end Firestore
