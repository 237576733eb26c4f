import Enmart.Firestore.FieldPath

/-!
# Changes that are gathered

Several changes are made to a document in the order of their paths. Those that share
a parent are gathered, and made to the parent at once (`ObjectValue.setAll`). That
is making them one after the other, as long as nothing is deleted that is there
(`ObjectValue.setAll_eq_foldl`).
-/

namespace Firestore

/-- The changes that are to be made to fields: values that they take, or that they
are deleted. -/
abbrev TransformMap := List (FieldPath × Option Value)

namespace ObjectValue

/-- Several changes that share a parent are gathered before they are made. -/
structure Gathered where
  doc : Fields
  parent : FieldPath
  upserts : Fields
  deletes : List String

/-- The document with the gathered changes made. -/
def Gathered.flush (g : Gathered) : Fields :=
  inParentMap (fun parent => applyChanges parent g.upserts g.deletes) g.parent g.doc

/-- One more change is gathered; where its parent is another, those before it are
made first. -/
def Gathered.add (g : Gathered) (c : FieldPath × Option Value) : Gathered :=
  let g : Gathered :=
    if c.fst ≠ [] ∧ c.fst.dropLast = g.parent then g else ⟨g.flush, c.fst.dropLast, [], []⟩
  match c.snd with
  | some v => { g with upserts := g.upserts.set (c.fst.getLastD "") v }
  | none =>
    { g with deletes := OrderedSet.insert Firestore.Before id (c.fst.getLastD "") g.deletes }

/-- **The document with all the changes made.** -/
def setAll (d : Fields) (data : TransformMap) : Fields :=
  (data.foldl Gathered.add ⟨d, [], [], []⟩).flush

/-! ## One change after the other -/

/-- One change, made by itself. A field that is not there is deleted in vain, but
the maps on the way to it are made. -/
def apply (d : Fields) (c : FieldPath × Option Value) : Fields :=
  match c.snd with
  | some v => set d c.fst v
  | none => inParentMap id c.fst.dropLast d

/-- Each field that is deleted is missing when its turn comes. -/
def DeletesInVain : Fields → TransformMap → Prop
  | _, [] => True
  | d, c :: data => (c.snd = none → look d c.fst = .absent) ∧ DeletesInVain (apply d c) data

/-- Each change has a path that is not empty, and puts a value in order, if any.
-/
def Proper (data : TransformMap) : Prop :=
  ∀ c ∈ data, c.fst ≠ [] ∧ ∀ v, c.snd = some v → v.InOrder

namespace Gathered

/-- **What has been gathered can be made**: the document and the values are in
order, and nothing that is there is deleted. -/
structure Ready (g : Gathered) : Prop where
  doc : g.doc.InOrder
  upserts : g.upserts.InOrder
  deletes : OrderedSet.Ordered Firestore.Before id g.deletes
  absent : ∀ k ∈ g.deletes, (mapAt g.doc g.parent).get? k = none

variable {g : Gathered}

/-- Making the gathered changes is putting their values in the map of their
parent. -/
theorem Ready.flush_eq (h : g.Ready) :
    g.flush = inParentMap (fun m => m.patch (Fields.values g.upserts)) g.parent g.doc :=
  inParentMap_congr h.doc (applyChanges_of_absent (inOrder_mapAt h.doc g.parent).sorted
    h.upserts.sorted h.deletes h.absent)

/-- A map in order stays so when values in order are put in it. -/
theorem inOrder_patch {m e : Fields} (hm : m.InOrder) (he : e.InOrder) :
    (m.patch (Fields.values e)).InOrder := by
  refine .map (hm.sorted.patch _) (fun k v hk => ?_)
  rw [Fields.get?_patch_values he.sorted] at hk
  rcases Option.or_eq_some_iff.mp hk with hk | ⟨-, hk⟩
  · exact he.of_get? hk
  · exact hm.of_get? hk

/-- A document stays in order when the gathered changes are made. -/
theorem Ready.inOrder_flush (h : g.Ready) : g.flush.InOrder := by
  rw [h.flush_eq]
  exact inOrder_inParentMap h.doc (inOrder_patch (inOrder_mapAt h.doc g.parent) h.upserts)

/-- Nothing gathered yet can be made, whatever the parent is. -/
theorem ready_nil {d : Fields} (hd : d.InOrder) (p : FieldPath) : Ready ⟨d, p, [], []⟩ :=
  ⟨hd, Fields.inOrder_nil, List.Pairwise.nil, fun _ h => absurd h List.not_mem_nil⟩

/-- **A value that is gathered is put after the others.** -/
theorem Ready.add_some (h : g.Ready) {path : FieldPath} (hpath : path ≠ []) {v : Value}
    (hv : v.InOrder) : (g.add (path, some v)).Ready
      ∧ (g.add (path, some v)).flush = set g.flush path v := by
  obtain ⟨p, k, rfl⟩ := exists_concat hpath
  by_cases hparent : p = g.parent
  · subst hparent
    have hadd : g.add (g.parent ++ [k], some v) = { g with upserts := g.upserts.set k v } := by
      unfold add
      rw [if_pos ⟨hpath, List.dropLast_concat⟩, List.getLastD_concat]
    have hready : (g.add (g.parent ++ [k], some v)).Ready := by
      rw [hadd]
      exact ⟨h.doc, h.upserts.set hv k, h.deletes, h.absent⟩
    refine ⟨hready, ?_⟩
    rw [hready.flush_eq, hadd, set_concat h.inOrder_flush, h.flush_eq,
      inParentMap_inParentMap h.doc (inOrder_patch (inOrder_mapAt h.doc g.parent) h.upserts)]
    have hm := inOrder_mapAt h.doc g.parent
    refine inParentMap_congr h.doc (Fields.ext (hm.sorted.patch _) ((hm.sorted.patch _).set k v)
      (fun l => ?_))
    rw [Fields.get?_patch_values (h.upserts.sorted.set k v), Fields.get?_set, Fields.get?_set,
      Fields.get?_patch_values h.upserts.sorted]
    split <;> rfl
  · have hadd : g.add (p ++ [k], some v) = ⟨g.flush, p, [(k, v)], []⟩ := by
      unfold add
      rw [if_neg (fun hc => hparent (List.dropLast_concat.symm.trans hc.2)), List.dropLast_concat,
        List.getLastD_concat]
      rfl
    rw [hadd]
    refine ⟨⟨h.inOrder_flush, Fields.inOrder_nil.set hv k, List.Pairwise.nil,
      fun _ h => absurd h List.not_mem_nil⟩, ?_⟩
    show inParentMap _ p g.flush = inParentMap _ _ g.flush
    rw [List.dropLast_concat, List.getLastD_concat]

/-- **Deleting a field that is not there changes nothing**, but for the maps on
the way to it. -/
theorem Ready.add_none (h : g.Ready) {path : FieldPath} (hpath : path ≠ [])
    (habsent : look g.flush path = .absent) : (g.add (path, none)).Ready
      ∧ (g.add (path, none)).flush = inParentMap id path.dropLast g.flush := by
  obtain ⟨p, k, rfl⟩ := exists_concat hpath
  rw [List.dropLast_concat]
  by_cases hparent : p = g.parent
  · subst hparent
    have hadd : g.add (g.parent ++ [k], none)
        = { g with deletes := OrderedSet.insert Firestore.Before id k g.deletes } := by
      unfold add
      rw [if_pos ⟨hpath, List.dropLast_concat⟩, List.getLastD_concat]
    have hk : (mapAt g.doc g.parent).get? k = none := by
      rw [h.flush_eq, look_inParentMap_append h.doc, look_singleton,
        Fields.get?_patch_values h.upserts.sorted] at habsent
      exact (Option.or_eq_none_iff.mp habsent).2
    have hready : (g.add (g.parent ++ [k], none)).Ready := by
      rw [hadd]
      refine ⟨h.doc, h.upserts, h.deletes.insert k, fun l hl => ?_⟩
      rcases OrderedSet.mem_insert_imp hl with rfl | hl
      · exact hk
      · exact h.absent l hl
    refine ⟨hready, ?_⟩
    rw [hready.flush_eq, hadd, h.flush_eq,
      inParentMap_inParentMap h.doc (inOrder_patch (inOrder_mapAt h.doc g.parent) h.upserts)]
    rfl
  · have hadd : g.add (p ++ [k], none) = ⟨g.flush, p, [], [k]⟩ := by
      unfold add
      rw [if_neg (fun hc => hparent (List.dropLast_concat.symm.trans hc.2)), List.dropLast_concat,
        List.getLastD_concat]
      rfl
    have hready : (g.add (p ++ [k], none)).Ready := by
      rw [hadd]
      refine ⟨h.inOrder_flush, Fields.inOrder_nil, List.pairwise_singleton _ _, fun l hl => ?_⟩
      obtain rfl := List.mem_singleton.mp hl
      rw [← look_mapAt, look_singleton] at habsent
      exact habsent
    refine ⟨hready, ?_⟩
    rw [hready.flush_eq, hadd]
    rfl

end Gathered

/-- Without changes the document stays as it is. -/
theorem setAll_nil (hd : d.InOrder) : setAll d [] = d :=
  (Gathered.ready_nil hd []).flush_eq

/-- **Changes that are gathered are made one after the other**, where what is deleted
is not there. -/
theorem setAll_eq_foldl {data : TransformMap} (hd : d.InOrder) (hdata : Proper data)
    (hvain : DeletesInVain d data) : setAll d data = data.foldl apply d := by
  have hfold : ∀ g : Gathered, g.Ready → DeletesInVain g.flush data →
      (data.foldl Gathered.add g).flush = data.foldl apply g.flush := by
    clear hvain
    induction data with
    | nil => exact fun g _ _ => rfl
    | cons c data ih =>
      intro g hg hvain
      obtain ⟨path, value⟩ := c
      obtain ⟨⟨hpath, hvalue⟩, hdata⟩ := List.forall_mem_cons.mp hdata
      rw [List.foldl_cons, List.foldl_cons]
      obtain ⟨hready, hflush⟩ : (g.add (path, value)).Ready
          ∧ (g.add (path, value)).flush = apply g.flush (path, value) := by
        cases value with
        | some v => exact hg.add_some hpath (hvalue v rfl)
        | none => exact hg.add_none hpath (hvain.1 rfl)
      rw [← hflush]
      exact ih hdata _ hready (hflush ▸ hvain.2)
  have hnone : Gathered.flush ⟨d, [], [], []⟩ = d := setAll_nil hd
  rw [setAll, hfold _ (Gathered.ready_nil hd []) (by rw [hnone]; exact hvain), hnone]

end ObjectValue

end Firestore
