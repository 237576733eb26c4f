import Enmart.Firestore.Flat
import Enmart.Firestore.UserData

/-!
# Writes that have not been answered, shown as the store would make them

While the client is offline nothing answers, and the application goes on with what
the client shows. Each write is made of what is shown, and is sent with the numbers
that its increments started from. What is shown is what the store would have, had it
made the writes (`writes_shown_iff`): exactly when each document that is set has
transforms that come to the same of what was shown as of nothing.
-/

namespace Firestore

open ObjectValue Mutation

/-! ## The numbers that increments start from -/

/-- The number that an increment starts from. -/
def FieldValue.baseValue : FieldValue → Option Value → Option Value
  | .increment _, previousValue => some (TransformOperation.computeBaseValue previousValue).toValue
  | _, _ => none

/-- **An increment comes to the same of the number that it started from.** -/
theorem FieldValue.apply_baseValue {f : FieldValue} {previousValue : Option Value} {v : Value}
    (h : f.baseValue previousValue = some v) : f.apply (some v) = f.apply previousValue := by
  cases f with
  | value w => exact nomatch h
  | arrayUnion vs => exact nomatch h
  | arrayRemove vs => exact nomatch h
  | increment n =>
    obtain rfl := Option.some.inj h
    rcases previousValue with _ | ⟨_ | _ | _ | _ | _ | _⟩ | _ | _ <;> rfl

/-- The value an increment starts from is a number. -/
theorem FieldValue.exists_of_baseValue {f : FieldValue} {previousValue : Option Value} {v : Value}
    (h : f.baseValue previousValue = some v) : ∃ n : NumericValue, v = n.toValue := by
  cases f with
  | value w => exact nomatch h
  | arrayUnion vs => exact nomatch h
  | arrayRemove vs => exact nomatch h
  | increment n => exact ⟨_, (Option.some.inj h).symm⟩

/-- The numbers that the increments of a write start from, with the paths of their
fields. -/
def baseValues (d : Fields) (fields : List (FieldPath × FieldValue)) : List (FieldPath × Value) :=
  fields.filterMap (fun f =>
    (f.snd.baseValue (ObjectValue.get d f.fst)).map (fun v => (f.fst, v)))

variable {fields : List (FieldPath × FieldValue)}

/-- A number is started from exactly when it is that of a field of the write. -/
theorem mem_baseValues {d : Fields} {c : FieldPath × Value} :
    c ∈ baseValues d fields
      ↔ ∃ f ∈ fields, f.fst = c.fst ∧ f.snd.baseValue (ObjectValue.get d f.fst) = some c.snd :=
  mem_filterMap_path

/-- **The numbers are put in a map of their own**, if there are any. -/
theorem extractTransformBaseValue_eq {m : Mutation} (hm : m.fieldTransforms = transformsOf fields)
    (doc : MutableDocument) : m.extractTransformBaseValue doc
      = if baseValues doc.value fields = [] then none
        else some (setFields [] (baseValues doc.value fields)) := by
  have hfold : ∀ (fs : List (FieldPath × FieldValue)) (b : Option Fields),
      (transformsOf fs).foldl (addBaseValue doc) b
        = if baseValues doc.value fs = [] then b
          else some (setFields (b.getD []) (baseValues doc.value fs)) := by
    intro fs
    induction fs with
    | nil => exact fun b => rfl
    | cons f fs ih =>
      intro b
      obtain ⟨p, f⟩ := f
      cases f with
      | value v => exact ih b
      | arrayUnion vs => exact ih b
      | arrayRemove vs => exact ih b
      | increment n =>
        refine (ih _).trans ?_
        show _ = some (setFields (ObjectValue.set (b.getD []) p _) (baseValues doc.value fs))
        split
        · next hnil =>
          rw [hnil]
          rfl
        · rfl
  rw [extractTransformBaseValue, hm]
  exact hfold fields none

/-- A value of a map without fields of its own is in the mask of the map by its
name. -/
theorem Value.mem_fieldMasks_of_mem {fs : List (String × Value)} {k : String} {v : Value}
    (h : (k, v) ∈ fs) (hv : v.fieldMask = []) : [k] ∈ fieldMask.fieldMasks fs := by
  induction fs with
  | nil => exact absurd h List.not_mem_nil
  | cons f fs ih =>
    rw [fieldMask.fieldMasks]
    rcases List.mem_cons.mp h with rfl | h
    · rw [if_pos hv]
      exact List.mem_append_left _ (List.mem_singleton.mpr rfl)
    · exact List.mem_append_right _ (ih h)

section Base

variable {us : Update} {d : Fields}

/-- The number of a name is put at the path of that name. -/
theorem exists_of_mem_baseValues {c : FieldPath × Value} (hc : c ∈ baseValues d (topLevel us)) :
    ∃ k, c.fst = [k] ∧ ∃ n : NumericValue, c.snd = n.toValue := by
  obtain ⟨f, hf, hpath, hv⟩ := mem_baseValues.mp hc
  obtain ⟨u, -, rfl⟩ := List.mem_map.mp hf
  exact ⟨u.fst, hpath.symm, FieldValue.exists_of_baseValue hv⟩

/-- **The numbers are read at their names.** -/
theorem setFields_baseValues (h : IsUserData (topLevel us)) (d : Fields) :
    (setFields [] (baseValues d (topLevel us))).InOrder
      ∧ (∀ c ∈ baseValues d (topLevel us),
        ObjectValue.get (setFields [] (baseValues d (topLevel us))) c.fst = some c.snd)
      ∧ ∀ q, (∀ c ∈ baseValues d (topLevel us), c.fst.Apart q) →
        look (setFields [] (baseValues d (topLevel us))) q = look [] q :=
  setFields_spec Fields.inOrder_nil (h.distinct.filterMap_path _) (fun c hc => by
    obtain ⟨-, -, n, hn⟩ := exists_of_mem_baseValues hc
    exact hn ▸ n.inOrder_toValue)

/-- **The mask of the numbers** is of the names that they are put at. -/
theorem mem_fieldMask_baseValues (h : IsUserData (topLevel us)) {p : FieldPath} :
    p ∈ Value.fieldMask (.map (setFields [] (baseValues d (topLevel us))))
      ↔ ∃ c ∈ baseValues d (topLevel us), c.fst = p := by
  obtain ⟨horder, hget, hrest⟩ := setFields_baseValues h d
  constructor
  · intro hp
    obtain ⟨hne, hp⟩ := Value.get_of_mem_fieldMask horder p hp
    obtain ⟨k, p, rfl⟩ := List.exists_cons_of_ne_nil hne
    have hthere : look (setFields [] (baseValues d (topLevel us))) (k :: p) ≠ .absent :=
      fun hc => hp (look_eq_absent.mp hc)
    obtain ⟨c, hc, hnot⟩ : ∃ c ∈ baseValues d (topLevel us), ¬ c.fst.Apart (k :: p) := by
      by_contra hnone
      refine hthere ((hrest (k :: p) (fun c hc => ?_)).trans rfl)
      exact by_contra (fun hnot => hnone ⟨c, hc, hnot⟩)
    obtain ⟨l, hl, n, hn⟩ := exists_of_mem_baseValues hc
    have hk : k = l := by
      rw [hl] at hnot
      by_contra hkl
      refine hnot ⟨fun hc => ?_, fun hc => ?_⟩
      · exact hkl (List.cons_prefix_cons.mp hc).1.symm
      · exact hkl (List.cons_prefix_cons.mp hc).1
    -- there is nothing within a number
    have hnil : p = [] := by
      have hlook := look_append_of_get (hget c hc) p
      rw [hl, ← hk, hn] at hlook
      cases p with
      | nil => rfl
      | cons m p =>
        rw [Value.look_cons_of_not_map (by cases n <;> exact nofun)] at hlook
        exact absurd hlook hthere
    exact ⟨c, hc, by rw [hl, hk, hnil]⟩
  · rintro ⟨c, hc, rfl⟩
    obtain ⟨k, hk, n, hn⟩ := exists_of_mem_baseValues hc
    have hread := hget c hc
    rw [hk, get_singleton] at hread
    rw [hk]
    refine Value.mem_fieldMasks_of_mem ((Fields.mem_iff_get? horder.sorted).mpr hread) ?_
    rw [hn]
    cases n <;> rfl

/-- The document with the numbers that increments start from put in it. -/
def withBaseValues (d : Fields) (us : Update) : Fields :=
  let baseValue := setFields [] (baseValues d (topLevel us))
  setAll d (getPatch baseValue (Value.fieldMask (.map baseValue)))

/-- **The numbers change nothing that a write says.** -/
theorem withBaseValues_spec (h : IsUserData (topLevel us)) (hd : d.InOrder) :
    (withBaseValues d us).InOrder
      ∧ (∀ f ∈ topLevel us, f.snd.apply (ObjectValue.get (withBaseValues d us) f.fst)
        = f.snd.apply (ObjectValue.get d f.fst))
      ∧ ∀ q, (∀ f ∈ topLevel us, f.fst.Apart q) → look (withBaseValues d us) q = look d q := by
  obtain ⟨horder, hget, -⟩ := setFields_baseValues h d
  obtain ⟨hputs, hpaths⟩ := puts_getPatch horder (Value.get_of_mem_fieldMask horder)
  obtain ⟨horder', hread, hkept⟩ := look_setAll_of_get hd hputs
    (w := setFields [] (baseValues d (topLevel us))) (fun c hc => by
      obtain ⟨p, -, rfl⟩ := List.mem_map.mp hc
      rfl)
  have hmem : ∀ p, (∃ c ∈ getPatch (setFields [] (baseValues d (topLevel us)))
      (Value.fieldMask (.map (setFields [] (baseValues d (topLevel us))))), c.fst = p)
        ↔ ∃ c ∈ baseValues d (topLevel us), c.fst = p := by
    intro p
    refine List.mem_map.symm.trans ?_
    rw [hpaths]
    exact mem_fieldMask_baseValues h
  refine ⟨horder', fun f hf => ?_, fun q hq => hkept q (fun c hc => ?_)⟩
  · cases hv : f.snd.baseValue (ObjectValue.get d f.fst) with
    | some v =>
      have hbase : (f.fst, v) ∈ baseValues d (topLevel us) := mem_baseValues.mpr ⟨f, hf, rfl, hv⟩
      obtain ⟨c, hc, hpath⟩ := (hmem f.fst).mpr ⟨(f.fst, v), hbase, rfl⟩
      have hsome : ObjectValue.get (withBaseValues d us) f.fst = some v := by
        refine (get_eq_of_look horder' horder (fun r => ?_)).trans (hget (f.fst, v) hbase)
        exact hread (f.fst ++ r) ⟨c, hc, fun hc => hc.1 (hpath ▸ List.prefix_append f.fst r)⟩
      rw [hsome]
      exact FieldValue.apply_baseValue hv
    | none =>
      refine congrArg f.snd.apply (get_eq_of_look horder' hd (fun r => hkept _ (fun c hc => ?_)))
      obtain ⟨e, he, hpath⟩ := (hmem c.fst).mp ⟨c, hc, rfl⟩
      obtain ⟨g, hg, hpath', hv'⟩ := mem_baseValues.mp he
      -- the number is of another field
      have hne : g ≠ f := fun hgf => by
        rw [hgf, hv] at hv'
        exact nomatch hv'
      rw [← hpath, ← hpath']
      exact (h.distinct.apart_of_ne hg hf hne).append r
  · obtain ⟨e, he, hpath⟩ := (hmem c.fst).mp ⟨c, hc, rfl⟩
    obtain ⟨f, hf, hpath', -⟩ := mem_baseValues.mp he
    rw [← hpath, ← hpath']
    exact hq f hf

end Base

/-! ## The writes of a document -/

/-- **What the application does to a document.** -/
inductive OfflineWrite where
  /-- Names are updated. -/
  | update (us : Update)
  /-- A name in a map is. -/
  | updateIn (k l : String) (v : Value)
  | set (us : Update)
  | delete

namespace OfflineWrite

/-- The mutation that is sent for a write. -/
def toMutation : OfflineWrite → Mutation
  | update us => updateData (topLevel us)
  | updateIn k l v => updateData [([k, l], .value v)]
  | set us => setData us
  | delete => deleteDocument

/-- **What it does to the collection of the document.** An update fails where there is
no document. -/
def apply (c : Collection) (key : String) : OfflineWrite → Collection
  | update us => (c.update key us).getD c
  | updateIn k l v => Function.update c key ((c key).map (fun d => d.setIn k l v))
  | set us => c.set key us
  | delete => c.delete key

/-- The names of a write are different, its values in order; and what an update puts
has no fields of its own. -/
def Proper : OfflineWrite → Prop
  | update us => (us.map Prod.fst).Nodup
    ∧ ∀ u ∈ us, ∀ v, u.snd.given = some v → v.InOrder ∧ v.fieldMask = []
  | updateIn _ _ v => v.InOrder ∧ v.fieldMask = []
  | set us => (us.map Prod.fst).Nodup ∧ ∀ u ∈ us, ∀ v, u.snd.given = some v → v.InOrder
  | delete => True

/-- The transforms of a document that is set come to the same of the document that
was there as of nothing. -/
def SameOfNothing (d : Option Fields) : OfflineWrite → Prop
  | set us => ∀ u ∈ us, u.snd.apply ((d.getD []).get? u.fst) = u.snd.apply none
  | _ => True

end OfflineWrite

/-- The fields of a document, if it is there. -/
def MutableDocument.content (doc : MutableDocument) : Option Fields :=
  if doc.isFoundDocument then some doc.value else none

/-! ## One write -/

/-- **A document of which a write says the same** as of another one, and which differs
from it only in the fields of the write. -/
structure SaysTheSame (us : Update) (doc doc' : MutableDocument) : Prop where
  found : doc'.isFoundDocument = doc.isFoundDocument
  inOrder : doc'.value.InOrder
  same : ∀ f ∈ topLevel us, f.snd.apply (ObjectValue.get doc'.value f.fst)
    = f.snd.apply (ObjectValue.get doc.value f.fst)
  rest : ∀ q, (∀ f ∈ topLevel us, f.fst.Apart q) → look doc'.value q = look doc.value q

section Batch

variable {us : Update}

/-- A write says the same of a document as of itself. -/
theorem SaysTheSame.refl (us : Update) {doc : MutableDocument} (hdoc : doc.value.InOrder) :
    SaysTheSame us doc doc :=
  ⟨rfl, hdoc, fun _ _ => rfl, fun _ _ => rfl⟩

/-- **A write says the same of the document with the numbers that its increments
start from** put in it. -/
theorem saysTheSame_baseValues (h : IsUserData (topLevel us)) {doc : MutableDocument}
    (hdoc : doc.value.InOrder) (mask : Option FieldMask) :
    SaysTheSame us doc ((Mutation.patch (setFields [] (baseValues doc.value (topLevel us)))
      (Value.fieldMask (.map (setFields [] (baseValues doc.value (topLevel us))))) (.exists true)
      []).applyToLocalView doc mask).fst := by
  obtain ⟨horder, hsame, hrest⟩ := withBaseValues_spec h hdoc
  rw [Mutation.applyToLocalView]
  split
  · next hvalid =>
    have hvalue : setAll (withBaseValues doc.value us) [] = withBaseValues doc.value us :=
      setAll_nil horder
    refine ⟨of_decide_eq_true hvalid, ?_, ?_, ?_⟩
    · show (setAll (withBaseValues doc.value us) []).InOrder
      rwa [hvalue]
    · show ∀ f ∈ topLevel us, f.snd.apply
        (ObjectValue.get (setAll (withBaseValues doc.value us) []) f.fst) = _
      rwa [hvalue]
    · show ∀ q, _ → look (setAll (withBaseValues doc.value us) []) q = _
      rwa [hvalue]
  · -- there is no document to put them in
    exact SaysTheSame.refl us hdoc

/-- **A write is made of what is shown, with the numbers that its increments start
from**, of which the write says the same. -/
theorem applyToLocalView_batchOf (h : IsUserData (topLevel us)) (s : LocalStore) {m : Mutation}
    (hm : m.fieldTransforms = transformsOf (topLevel us))
    (hdoc : s.overlayedDocument.fst.value.InOrder) :
    ∃ doc mask, (s.batchOf m).applyToLocalView s.overlayedDocument = m.applyToLocalView doc mask
      ∧ SaysTheSame us s.overlayedDocument.fst doc := by
  rw [LocalStore.batchOf, MutationBatch.applyToLocalView, extractTransformBaseValue_eq hm]
  by_cases hnone : baseValues s.overlayedDocument.fst.value (topLevel us) = []
  · rw [if_pos hnone]
    exact ⟨_, _, rfl, SaysTheSame.refl us hdoc⟩
  · rw [if_neg hnone]
    exact ⟨_, _, rfl, saysTheSame_baseValues h hdoc _⟩

end Batch

namespace OfflineWrite

/-- A proper update of names is one of fields that are apart. -/
theorem isUpdateData_topLevel {us : Update} (h : (update us).Proper) :
    IsUpdateData (topLevel us) := by
  refine ⟨isUserData_topLevel h.1 (fun u hu v hv => (h.2 u hu v hv).1), fun f hf => ?_⟩
  obtain ⟨u, hu, rfl⟩ := List.mem_map.mp hf
  exact fun v hv => (h.2 u hu v hv).2

/-- A proper update of a name in a map is one of fields that are apart. -/
theorem isUpdateData_path {k l : String} {v : Value} (h : (updateIn k l v).Proper) :
    IsUpdateData [([k, l], .value v)] := by
  refine ⟨⟨⟨fun p hp => ?_, List.pairwise_singleton _ _⟩, fun f hf w hw => ?_⟩, fun f hf w hw => ?_⟩
  · rw [List.mem_singleton.mp hp]
    exact List.cons_ne_nil k [l]
  · obtain rfl := List.mem_singleton.mp hf
    exact Option.some.inj hw ▸ h.1
  · obtain rfl := List.mem_singleton.mp hf
    exact Option.some.inj hw ▸ h.2

variable {w : OfflineWrite}

/-- **The mutation of a proper write puts values**, at paths of no more than two
names. -/
theorem Proper.toMutation (h : w.Proper) : w.toMutation.PutsValues ∧ w.toMutation.Flat := by
  cases w with
  | update us =>
    have hdata := isUpdateData_topLevel h
    refine ⟨hdata.putsValues, fun mask hmask p hp => ?_, fun t ht => ?_⟩
    · obtain rfl := Option.some.inj hmask
      obtain ⟨c, hc, rfl⟩ := hdata.mem_fieldMask.mp hp
      obtain ⟨f, hf, hpath, -⟩ := mem_givenValues.mp hc
      obtain ⟨u, -, rfl⟩ := List.mem_map.mp hf
      rw [← hpath]
      exact Nat.le_succ 1
    · obtain ⟨f, hf, hpath, -⟩ := mem_transformsOf.mp ht
      obtain ⟨u, -, rfl⟩ := List.mem_map.mp hf
      rw [← hpath]
      exact Nat.le_succ 1
  | updateIn k l v =>
    have hdata := isUpdateData_path h
    refine ⟨hdata.putsValues, fun mask hmask p hp => ?_, fun t ht => absurd ht List.not_mem_nil⟩
    obtain rfl := Option.some.inj hmask
    obtain ⟨c, hc, rfl⟩ := hdata.mem_fieldMask.mp hp
    obtain ⟨f, hf, hpath, -⟩ := mem_givenValues.mp hc
    obtain rfl := List.mem_singleton.mp hf
    rw [← hpath]
    exact Nat.le_refl 2
  | set us =>
    have hdata := isUserData_topLevel h.1 h.2
    rw [OfflineWrite.toMutation, setData, parsedSetData_eq h.2]
    refine ⟨⟨hdata.data.1, hdata.path_ne_nil⟩, nofun, fun t ht => ?_⟩
    obtain ⟨f, hf, hpath, -⟩ := mem_transformsOf.mp ht
    obtain ⟨u, -, rfl⟩ := List.mem_map.mp hf
    rw [← hpath]
    exact Nat.le_succ 1
  | delete => exact ⟨trivial, nofun, fun t ht => absurd ht List.not_mem_nil⟩

end OfflineWrite

/-- A value put in a field of a map. -/
theorem set_pair {d : Fields} (hd : d.InOrder) (k l : String) (v : Value) :
    ObjectValue.set d [k, l] v = d.setIn k l v := by
  have hset := set_concat hd [k] l v
  rw [inParentMap_cons hd.sorted] at hset
  exact hset

/-- A document that is there has fields. -/
theorem MutableDocument.content_of_found {doc : MutableDocument} (h : doc.isFoundDocument = true) :
    doc.content = some doc.value := if_pos h

/-- A document that is not there has no fields. -/
theorem MutableDocument.content_of_not_found {doc : MutableDocument}
    (h : doc.isFoundDocument = false) : doc.content = none :=
  if_neg (by rw [h]; exact Bool.false_ne_true)

/-- **An update of a document** is what it says, of the document that is there. -/
theorem content_updateData (h : IsUpdateData fields) {doc : MutableDocument} {d : Fields}
    (hd : d.InOrder) (hdoc : doc.value.InOrder)
    (hsame : ∀ f ∈ fields, f.snd.apply (ObjectValue.get doc.value f.fst)
      = f.snd.apply (ObjectValue.get d f.fst))
    (hrest : ∀ q, (∀ f ∈ fields, f.fst.Apart q) → look doc.value q = look d q)
    (mask : Option FieldMask) :
    ((updateData fields).applyToLocalView doc mask).fst.content
      = if doc.isFoundDocument then some (written d d fields) else none := by
  rw [updateData, Mutation.applyToLocalView]
  split
  · next hvalid =>
    rw [if_pos (of_decide_eq_true hvalid).symm]
    exact congrArg some (h.value_eq hd hdoc hsame hrest)
  · next hvalid =>
    have hfound : doc.isFoundDocument = false :=
      Bool.eq_false_iff.mpr (fun hc => hvalid (decide_eq_true hc.symm))
    rw [if_neg (by rw [hfound]; exact Bool.false_ne_true)]
    exact MutableDocument.content_of_not_found hfound

/-- **A document that is set takes the same of what was there as of nothing** exactly
when its transforms do. -/
theorem written_eq_ofUpdate_iff {us : Update} (h : (OfflineWrite.set us).Proper) (d : Fields) :
    written [] d (topLevel us) = Fields.ofUpdate us
      ↔ ∀ u ∈ us, u.snd.apply (d.get? u.fst) = u.snd.apply none := by
  have hdata := isUserData_topLevel h.1 h.2
  have hnothing : Fields.ofUpdate us = written [] [] (topLevel us) :=
    (written_topLevel Fields.inOrder_nil h.2).symm
  rw [hnothing]
  constructor
  · intro heq u hu
    have hmem : ([u.fst], u.snd) ∈ topLevel us := List.mem_map_of_mem hu
    have hget := (hdata.written_spec Fields.inOrder_nil d).2.1 _ hmem
    rw [heq, (hdata.written_spec Fields.inOrder_nil []).2.1 _ hmem, get_singleton,
      get_singleton] at hget
    exact (Option.some.inj hget).symm
  · intro hsame
    refine congrArg (setFields []) (List.map_congr_left (fun f hf => ?_))
    obtain ⟨u, hu, rfl⟩ := List.mem_map.mp hf
    rw [get_singleton, get_singleton, hsame u hu]
    rfl

namespace OfflineWrite

variable {w : OfflineWrite} {c : Collection} {key : String}

/-- **A write is shown as the store would make it**, if a document that is set takes the
same of what was shown as of nothing. -/
theorem content_applyToLocalView_iff (h : w.Proper) (s : LocalStore)
    (hdoc : s.overlayedDocument.fst.value.InOrder)
    (hblank : s.overlayedDocument.fst.isFoundDocument = false →
      s.overlayedDocument.fst.value = [])
    (hc : s.overlayedDocument.fst.content = c key) :
    ((s.batchOf w.toMutation).applyToLocalView s.overlayedDocument).fst.content = w.apply c key key
      ↔ w.SameOfNothing (c key) := by
  have hnothing : IsUserData (topLevel []) :=
    isUserData_topLevel List.nodup_nil (fun _ hu => absurd hu List.not_mem_nil)
  cases w with
  | update us =>
    have hdata := isUpdateData_topLevel h
    obtain ⟨doc, mask, heq, hsays⟩ :=
      applyToLocalView_batchOf hdata.toIsUserData s (m := updateData (topLevel us)) rfl hdoc
    refine iff_of_true ?_ trivial
    show ((s.batchOf (updateData (topLevel us))).applyToLocalView _).fst.content = _
    rw [heq, content_updateData hdata hdoc hsays.inOrder hsays.same hsays.rest, hsays.found,
      written_topLevel hdoc (fun u hu v hv => (h.2 u hu v hv).1), ← Fields.patch]
    show _ = ((c.update key us).getD c) key
    rw [Collection.update, ← hc, MutableDocument.content]
    split
    · show _ = Function.update c key _ key
      rw [Function.update_self]
    · next hfound => exact (if_neg hfound).symm.trans hc
  | updateIn k l v =>
    have hdata := isUpdateData_path h
    obtain ⟨doc, mask, heq, hsays⟩ :=
      applyToLocalView_batchOf hnothing s (m := updateData [([k, l], .value v)]) rfl hdoc
    refine iff_of_true ?_ trivial
    show ((s.batchOf (updateData [([k, l], .value v)])).applyToLocalView _).fst.content = _
    rw [heq, content_updateData hdata hdoc hsays.inOrder (fun f hf => ?_)
      (fun q _ => hsays.rest q (fun f hf => absurd hf List.not_mem_nil)), hsays.found]
    · show _ = Function.update c key ((c key).map (fun d => d.setIn k l v)) key
      rw [Function.update_self, ← hc, MutableDocument.content]
      split
      · exact congrArg some (set_pair hdoc k l v)
      · rfl
    · obtain rfl := List.mem_singleton.mp hf
      rfl
  | set us =>
    have hdata := isUserData_topLevel h.1 h.2
    obtain ⟨doc, mask, heq, hsays⟩ := applyToLocalView_batchOf hdata s (m := setData us)
      (congrArg Prod.snd (parsedSetData_eq h.2)) hdoc
    have hcontent : ((s.batchOf (setData us)).applyToLocalView s.overlayedDocument).fst.content
        = some (written [] s.overlayedDocument.fst.value (topLevel us)) := by
      rw [heq]
      exact congrArg some (setData_value h.1 h.2 hsays.same)
    have hvalue : (c key).getD [] = s.overlayedDocument.fst.value := by
      rw [← hc]
      cases hfound : s.overlayedDocument.fst.isFoundDocument with
      | true => rw [MutableDocument.content_of_found hfound]; rfl
      | false => rw [MutableDocument.content_of_not_found hfound, hblank hfound]; rfl
    show ((s.batchOf (setData us)).applyToLocalView _).fst.content = c.set key us key ↔ _
    rw [hcontent, Collection.set_self, Option.some.injEq, written_eq_ofUpdate_iff h, ← hvalue]
    rfl
  | delete =>
    obtain ⟨doc, mask, heq, -⟩ := applyToLocalView_batchOf hnothing s (m := deleteDocument) rfl hdoc
    refine iff_of_true ?_ trivial
    show ((s.batchOf deleteDocument).applyToLocalView _).fst.content = c.delete key key
    rw [heq, Collection.delete, Function.update_self]
    rfl

end OfflineWrite

/-! ## A run of writes -/

/-- What writes have made of a document that is not there, and is still not, has
no fields. -/
theorem Tracks.value_eq_nil {remote : MutableDocument} {doc : MutableDocument × Option FieldMask}
    (h : Tracks remote doc) (hremote : remote.isFoundDocument = false → remote.value = [])
    (hfound : doc.fst.isFoundDocument = false) : doc.fst.value = [] := by
  cases h with
  | untouched => exact hremote hfound
  | patched hd hcovers => exact nomatch hfound
  | set hd => exact nomatch hfound
  | deleted => rfl

namespace LocalStore

/-- Making a write queues it, and leaves the document of the server as it is. -/
theorem remote_queue_writeLocally (s : LocalStore) (m : Mutation) :
    (s.writeLocally m).remote = s.remote ∧ (s.writeLocally m).queue = s.queue ++ [s.batchOf m] := by
  rw [writeLocally]
  show (LocalStore.saveOverlay _ _ _).remote = _ ∧ (LocalStore.saveOverlay _ _ _).queue = _
  rw [saveOverlay]
  split <;> exact ⟨rfl, rfl⟩

variable {s : LocalStore}

/-- **What is shown after a write** is what it makes of what was shown. -/
theorem IsShown.getDocument_writeLocally (h : s.IsShown) (hs : s.InOrder) {m : Mutation}
    (hm : m.PutsValues)
    (hkept : MasksKept ((s.batchOf m).applyToLocalView s.overlayedDocument)) :
    (s.writeLocally m).getDocument
      = ((s.batchOf m).applyToLocalView s.overlayedDocument).fst := by
  have hshows : ShowsWrites (s.writeLocally m) :=
    (h.writeLocally hs hm hkept).showsWrites (hs.queue hm).saveOverlay
  obtain ⟨hremote, hqueue⟩ := s.remote_queue_writeLocally m
  rw [hshows, hremote, hqueue]
  exact (h.applyToLocalView hs hm).2.symm

end LocalStore

namespace OfflineWrite

/-- **A write, while nothing answers**: the client makes it, and the store would. -/
def step (key : String) (s : LocalStore × Collection) (w : OfflineWrite) :
    Option (LocalStore × Collection) :=
  some (s.fst.writeLocally w.toMutation, w.apply s.snd key)

/-- The client shows the document of the store. -/
def Shown (key : String) (s : LocalStore × Collection) : Prop :=
  s.fst.getDocument.content = s.snd key

/-- **What is so between writes**, while nothing answers. -/
structure IsKept (key : String) (s : LocalStore × Collection) : Prop where
  inOrder : s.fst.InOrder
  isShown : s.fst.IsShown
  isFlat : s.fst.IsFlat
  blank : s.fst.remote.isFoundDocument = false → s.fst.remote.value = []
  shown : Shown key s

variable {key : String} {s : LocalStore × Collection} {w : OfflineWrite}

/-- The masks are kept by every proper write. -/
theorem IsKept.masksKept (hs : IsKept key s) (hw : w.Proper) :
    LocalStore.MasksKept ((s.fst.batchOf w.toMutation).applyToLocalView s.fst.overlayedDocument) :=
  (hs.isFlat.overlayedDocument.foldl (s.fst.flat_batchOf hw.toMutation.2
    (Mutation.PutsValues.path_ne_nil hw.toMutation.1))).masksKept

/-- **A write shows the store's document** exactly when it says the same of what was
shown as of nothing. -/
theorem IsKept.shown_step_iff (hs : IsKept key s) (hw : w.Proper) :
    Shown key (s.fst.writeLocally w.toMutation, w.apply s.snd key)
      ↔ w.SameOfNothing (s.snd key) := by
  obtain ⟨htracks, hdoc⟩ := hs.isShown.overlayedDocument hs.inOrder
  have hcontent : s.fst.overlayedDocument.fst.content = s.snd key := by
    rw [hdoc, ← hs.isShown.showsWrites hs.inOrder]
    exact hs.shown
  rw [Shown, hs.isShown.getDocument_writeLocally hs.inOrder hw.toMutation.1 (hs.masksKept hw)]
  exact content_applyToLocalView_iff hw s.fst (htracks.inOrder hs.inOrder.remote)
    (htracks.value_eq_nil hs.blank) hcontent

/-- A write keeps what the client keeps, if it is shown as the store makes it. -/
theorem IsKept.step (hs : IsKept key s) (hw : w.Proper) (hsame : w.SameOfNothing (s.snd key)) :
    IsKept key (s.fst.writeLocally w.toMutation, w.apply s.snd key) where
  inOrder := (hs.inOrder.queue hw.toMutation.1).saveOverlay
  isShown := hs.isShown.writeLocally hs.inOrder hw.toMutation.1 (hs.masksKept hw)
  isFlat := hs.isFlat.step (a := .write w.toMutation) hw.toMutation.2 hw.toMutation.1 rfl
  blank := by
    rw [(s.fst.remote_queue_writeLocally w.toMutation).1]
    exact hs.blank
  shown := (hs.shown_step_iff hw).mpr hsame

/-- **The application's writes are shown as the store would make them**, one after the
other while nothing answers, exactly when each document that is set has transforms
that come to the same of what is shown as of nothing. -/
theorem writes_shown_iff {remote : MutableDocument} (hremote : remote.value.InOrder)
    (hsynced : remote.hasLocalMutations = false)
    (hblank : remote.isFoundDocument = false → remote.value = []) (nextBatchId : ℕ)
    {c : Collection} (hc : remote.content = c key) {ws : List OfflineWrite}
    (hws : ∀ w ∈ ws, w.Proper) :
    Runs.Along (OfflineWrite.step key) (Shown key) (LocalStore.synced remote nextBatchId, c) ws
      ↔ Runs.Meets (OfflineWrite.step key) (fun s w => w.SameOfNothing (s.snd key))
        (LocalStore.synced remote nextBatchId, c) ws := by
  have hinit := LocalStore.isShown_synced hremote hsynced nextBatchId
  refine Runs.along_iff_meets_of_meets (I := IsKept key) (D := fun _ w => w.Proper)
    (fun s hs => hs.shown) (fun s w s' hs hw hsame hstep => ?_)
    (fun s w s' hs hw hsame hstep => ?_)
    ⟨hinit.1, hinit.2, ⟨fun _ hb => absurd hb List.not_mem_nil, fun _ _ ho => nomatch ho⟩,
      hblank, hc⟩ (Runs.meets_of_forall _ hws)
  · obtain rfl := Option.some.inj hstep
    exact hs.step hw hsame
  · obtain rfl := Option.some.inj hstep
    exact fun hshown => hsame ((hs.shown_step_iff hw).mp hshown)

/-- A cart that is there is set with an item: it is shown with the items that were
there. -/
theorem not_shown_set_cart :
    ¬ Runs.Along (OfflineWrite.step "u") (Shown "u")
      (LocalStore.synced ⟨.foundDocument, ⟨1⟩, [("items", .array [.int 1])], .synced⟩ 1,
        fun _ => some [("items", .array [.int 1])])
      [.set [("items", .arrayUnion [.int 2])]] := by
  have hcart : Fields.InOrder [("items", .array [.int 1])] :=
    Fields.inOrder_nil.set (.array _) "items"
  have hproper : ∀ w ∈ [OfflineWrite.set [("items", .arrayUnion [.int 2])]], w.Proper := by
    intro w hw
    obtain rfl := List.mem_singleton.mp hw
    refine ⟨List.nodup_singleton _, fun u hu v hv => ?_⟩
    obtain rfl := List.mem_singleton.mp hu
    exact nomatch hv
  refine (writes_shown_iff hcart rfl ?_ 1 rfl hproper).not.mpr (fun h => ?_)
  · exact fun hfound => nomatch hfound
  obtain ⟨hsame, -⟩ := h _ rfl
  exact absurd (hsame ("items", .arrayUnion [.int 2]) (List.mem_cons_self ..)) (by decide)

end OfflineWrite

end Firestore
