import Enmart.Firestore.Mutation

/-!
# What an overlay makes of a document

The mask of a document says which fields have been patched; the overlay gives these
fields what they have become, and is applied to what the server has instead of the
patches. A field that is gone is a difficulty: of a field that has been patched and
then lost, together with the field that it was in, all that the overlay says is that
the field it was in is to be deleted, and a field is deleted from a map, which is
made where there is none. So the overlay makes the document exactly when the map is
there (`overlayPatch_eq_iff`).
-/

namespace Firestore

namespace ObjectValue

variable {d base : Fields}

/-- A path leads to nothing exactly when it reads no value. -/
theorem look_eq_absent {p : FieldPath} : look d p = .absent ↔ get d p = none := by
  show Kind.of (get d p) = _ ↔ _
  cases get d p with
  | none => exact iff_of_true rfl rfl
  | some v => exact iff_of_false v.look_nil_ne_absent nofun

/-- Reading on from a value is reading in the value. -/
theorem look_append_of_get {p : FieldPath} {v : Value} (h : get d p = some v) (q : FieldPath) :
    look d (p ++ q) = v.look q := by
  rw [look, Value.look, Value.get_append, ← get, h]
  rfl

/-- **Above a field that is there, there are maps only.** -/
theorem look_above {p q : FieldPath} (h : look d p ≠ .absent) (hq : q <+: p) (hne : q ≠ p) :
    look d q = .map := by
  obtain ⟨r, rfl⟩ := hq
  cases r with
  | nil => exact absurd (List.append_nil q).symm hne
  | cons k r =>
    cases hv : get d q with
    | none =>
      refine absurd (look_eq_absent.mpr ?_) h
      rw [get, Value.get_append, ← get, hv]
      rfl
    | some v =>
      rw [look_append_of_get hv] at h
      cases v with
      | map fs => exact congrArg Kind.of hv
      | scalar s => exact absurd rfl h
      | array vs => exact absurd rfl h

/-- Below a field that is not there, there is nothing. -/
theorem look_of_absent {p q : FieldPath} (h : look d p = .absent) (hq : p <+: q) :
    look d q = .absent := by
  by_contra hne
  by_cases hpq : p = q
  · exact hne (hpq ▸ h)
  · rw [look_above hne hq hpq] at h
    exact nomatch h

/-- A value that is read of a document in order is in order. -/
theorem inOrder_of_get (hd : d.InOrder) {p : FieldPath} {v : Value} (h : get d p = some v) :
    v.InOrder := by
  have hvalue : ∀ {w : Value}, w.InOrder → w.get p = some v → v.InOrder := by
    clear h
    induction p with
    | nil =>
      intro w hw h
      exact Option.some.inj h ▸ hw
    | cons k p ih =>
      intro w hw h
      obtain ⟨u, hu, hrest⟩ := Option.bind_eq_some_iff.mp h
      cases hw with
      | map hfs hfs' => exact ih (hfs' k u hu) hrest
      | scalar s => exact nomatch hu
      | array vs => exact nomatch hu
  exact hvalue hd h

/-- **Documents that read alike are the same.** -/
theorem eq_of_look (hd : d.InOrder) (hbase : base.InOrder) (h : ∀ p, look d p = look base p) :
    d = base :=
  Value.map.inj (Value.eq_of_look hd hbase h)

/-- Making the maps on the way to a field changes nothing but these. -/
theorem look_inParentMap_id (hd : d.InOrder) (p q : FieldPath) :
    look (inParentMap id p d) q = if q <+: p then .map else look d q := by
  split
  · next h => exact look_inParentMap_above hd h
  · next h =>
    by_cases hp : p <+: q
    · obtain ⟨r, rfl⟩ := hp
      cases r with
      | nil => exact absurd (by rw [List.append_nil]) h
      | cons k r =>
        rw [look_inParentMap_append hd]
        exact look_mapAt d p k r
    · exact look_inParentMap_apart hd hp h

/-- **A value of another document is put**: above and below it, it is that document
that is read. -/
theorem look_set_of_get {e : Fields} (he : e.InOrder) {x : FieldPath} {v : Value}
    (hx : x ≠ []) (h : get d x = some v) {q : FieldPath} (hq : x <+: q ∨ q <+: x) :
    look (set e x v) q = look d q := by
  by_cases hbelow : x <+: q
  · obtain ⟨r, rfl⟩ := hbelow
    rw [look_set_append he hx, look_append_of_get h]
  · have hne : q ≠ x := fun hc => hbelow (hc ▸ List.prefix_refl x)
    have habove := hq.resolve_left hbelow
    have hthere : look d x ≠ .absent := fun hc => by
      rw [look_eq_absent.mp hc] at h
      exact nomatch h
    rw [look_set_above he habove hne, look_above hthere habove hne]

/-- Deleting a field that is not there changes nothing. -/
theorem delete_of_absent (hd : d.InOrder) {p : FieldPath} (h : look d p = .absent) :
    delete d p = d := by
  induction p generalizing d with
  | nil => rfl
  | cons k p ih =>
    cases p with
    | nil =>
      rw [delete, applyChanges_of_absent hd.sorted Fields.inOrder_nil.sorted
        (List.pairwise_singleton _ _) (fun l hl => List.mem_singleton.mp hl ▸ (look_singleton d k).mp h)]
      rfl
    | cons l p =>
      rw [delete]
      case cons.cons.x_1 => exact List.cons_ne_nil l p
      cases hk : d.get? k with
      | none => rfl
      | some v =>
        cases v with
        | scalar s => rfl
        | array vs => rfl
        | map fs =>
          have hfs : Fields.InOrder fs := hd.of_get? hk
          have hlook : look fs (l :: p) = .absent := by
            rw [look, Value.look_map_cons, hk] at h
            exact h
          show d.replace k (.map (delete fs (l :: p))) = d
          rw [ih hfs hlook, Fields.replace_eq_set hd.sorted hk]
          refine Fields.ext (hd.sorted.set k _) hd.sorted (fun m => ?_)
          rw [Fields.get?_set]
          split
          · next hm => rw [hm, hk]
          · rfl

end ObjectValue

open ObjectValue

/-! ## What a mask says -/

/-- **The mask covers what has changed**: a document is what it was at every path
that is neither above nor below a field of the mask, and a field of the mask that
is gone is below one that is not. -/
structure Covers (mask : Set FieldPath) (base d : Fields) : Prop where
  ne_nil : ∀ m ∈ mask, m ≠ []
  outside : ∀ q, (∀ m ∈ mask, ¬ m <+: q ∧ ¬ q <+: m) → look d q = look base q
  lost : ∀ p ∈ mask, look d p = .absent → ∃ m ∈ mask, m <+: p ∧ m ≠ p ∧ look d m ≠ .absent

namespace Covers

variable {mask : Set FieldPath} {base d : Fields}

/-- The empty mask covers a document that is as it was. -/
theorem refl (d : Fields) : Covers ∅ d d :=
  ⟨fun _ h => absurd h (Set.notMem_empty _), fun _ _ => rfl,
    fun _ h => absurd h (Set.notMem_empty _)⟩

/-- What a mask covers depends only on which fields it has. -/
theorem congr (h : Covers mask base d) {mask' : Set FieldPath} (hmask : ∀ p, p ∈ mask ↔ p ∈ mask') :
    Covers mask' base d :=
  Set.ext hmask ▸ h

/-- **Putting a field** is covered by the mask with that field in it. -/
theorem set (h : Covers mask base d) (hd : d.InOrder) {path : FieldPath} (hpath : path ≠ [])
    {v : Value} : Covers (insert path mask) base (ObjectValue.set d path v) := by
  have hself : look (ObjectValue.set d path v) path ≠ .absent := by
    have hv := look_set_append (v := v) hd hpath []
    rw [List.append_nil] at hv
    rw [hv]
    exact v.look_nil_ne_absent
  have habove {q : FieldPath} (hq : q <+: path) : look (ObjectValue.set d path v) q ≠ .absent := by
    by_cases hne : q = path
    · rw [hne]
      exact hself
    · rw [look_set_above hd hq hne]
      exact nofun
  refine ⟨fun m hm => ?_, fun q hq => ?_, fun p hp habsent => ?_⟩
  · rcases Set.mem_insert_iff.mp hm with rfl | hm
    · exact hpath
    · exact h.ne_nil m hm
  · obtain ⟨hbelow, habove⟩ := hq path (Set.mem_insert ..)
    rw [look_set_apart hd hbelow habove]
    exact h.outside q (fun m hm => hq m (Set.mem_insert_of_mem path hm))
  · by_cases hbelow : path <+: p
    · -- what is lost is below what is put
      refine ⟨path, Set.mem_insert .., hbelow, fun hc => ?_, hself⟩
      exact hself (hc ▸ habsent)
    · have hnot : ¬ p <+: path := fun hp => habove hp habsent
      rw [look_set_apart hd hbelow hnot] at habsent
      have hmem : p ∈ mask := (Set.mem_insert_iff.mp hp).resolve_left
        (fun hc => hbelow (hc ▸ List.prefix_refl path))
      obtain ⟨m, hm, hmp, hne, hthere⟩ := h.lost p hmem habsent
      refine ⟨m, Set.mem_insert_of_mem path hm, hmp, hne, ?_⟩
      by_cases hmpath : m <+: path
      · exact habove hmpath
      · rwa [look_set_apart hd (fun hc => hbelow (hc.trans hmp)) hmpath]

/-- Putting values one after the other is covered by the mask with all their
fields in it. -/
theorem foldl (h : Covers mask base d) (hd : d.InOrder) {data : TransformMap}
    (hdata : Proper data) (hvalues : ∀ c ∈ data, c.snd ≠ none) :
    Covers (mask ∪ {p | p ∈ data.map Prod.fst}) base (data.foldl apply d)
      ∧ (data.foldl apply d).InOrder := by
  induction data generalizing mask d with
  | nil =>
    exact ⟨h.congr (fun p => (or_iff_left List.not_mem_nil).symm), hd⟩
  | cons c data ih =>
    obtain ⟨path, value⟩ := c
    obtain ⟨⟨hpath, hvalue⟩, hproper⟩ := List.forall_mem_cons.mp hdata
    obtain ⟨hne, hothers⟩ := List.forall_mem_cons.mp hvalues
    cases value with
    | none => exact absurd rfl hne
    | some v =>
      obtain ⟨hcovers, hd'⟩ := ih (h.set hd (v := v) hpath) (inOrder_set hd (hvalue v rfl) hpath)
        hproper hothers
      refine ⟨hcovers.congr (fun p => ?_), hd'⟩
      simp only [Set.mem_union, Set.mem_insert_iff, Set.mem_ofPred_eq, List.map_cons, List.mem_cons]
      tauto

end Covers

/-! ## The patch that an overlay is -/

namespace Mutation

variable {d : Fields} {p : FieldPath}

/-- A field that is there is named by its own path. -/
theorem overlayPath_of_there (h : look d p ≠ .absent) : overlayPath d p = p := by
  refine if_neg (fun hc => h (look_eq_absent.mpr ?_))
  exact Option.isNone_iff_eq_none.mp hc.1

/-- A field that is gone is named by the path of the field it was in. -/
theorem overlayPath_of_absent (h : look d p = .absent) (hlen : 1 < p.length) :
    overlayPath d p = p.dropLast :=
  if_pos ⟨Option.isNone_iff_eq_none.mpr (look_eq_absent.mp h), hlen⟩

/-- The path that names a field leads to it or above it. -/
theorem overlayPath_above (d : Fields) (p : FieldPath) : overlayPath d p <+: p := by
  rw [overlayPath]
  split
  · exact List.dropLast_prefix p
  · exact List.prefix_refl p

/-- The path that names a field is not empty. -/
theorem overlayPath_ne_nil (hp : p ≠ []) : overlayPath d p ≠ [] := by
  rw [overlayPath]
  split
  · next h =>
    intro hc
    have hlen := congrArg List.length hc
    rw [List.length_dropLast] at hlen
    have := h.2
    simp only [List.length_nil] at hlen
    omega
  · exact hp

/-- **What has been gathered for an overlay** from the fields of a mask. -/
structure IsOverlayOf (d : Fields) (mask : FieldMask) (overlay : Fields × FieldMask) : Prop where
  inOrder : overlay.fst.InOrder
  ordered : OrderedSet.Ordered FieldPath.Before id overlay.snd
  below : ∀ q, look overlay.fst q = .absent ∨ look overlay.fst q = look d q
  values : ∀ x ∈ overlay.snd, look d x ≠ .absent → ∀ q, x <+: q → look overlay.fst q = look d q
  named : ∀ x ∈ overlay.snd, ∃ p ∈ mask, x = overlayPath d p
  names : ∀ p ∈ mask, p ∈ overlay.snd ∨ overlayPath d p ∈ overlay.snd

namespace IsOverlayOf

variable {mask : FieldMask} {overlay : Fields × FieldMask}

/-- Of no fields, nothing has been gathered. -/
theorem nil (d : Fields) : IsOverlayOf d [] ([], []) where
  inOrder := Fields.inOrder_nil
  ordered := List.Pairwise.nil
  below q := by
    cases q with
    | nil => exact Or.inr rfl
    | cons k q => exact Or.inl rfl
  values _ h := absurd h List.not_mem_nil
  named _ h := absurd h List.not_mem_nil
  names _ h := absurd h List.not_mem_nil

/-- **Gathering one field more** keeps what holds of an overlay. -/
theorem step (h : IsOverlayOf d mask overlay) (hd : d.InOrder) (hp : p ≠ []) :
    IsOverlayOf d (mask ++ [p]) (overlayStep d overlay p) := by
  rw [overlayStep]
  split
  · next hmem =>
    refine { h with named := fun x hx => ?_, names := fun q hq => ?_ }
    · obtain ⟨q, hq, hx⟩ := h.named x hx
      exact ⟨q, List.mem_append_left _ hq, hx⟩
    · rcases List.mem_append.mp hq with hq | hq
      · exact h.names q hq
      · exact Or.inl (List.mem_singleton.mp hq ▸ hmem)
  · have hnamed : ∀ x ∈ FieldMask.insert (overlayPath d p) overlay.snd,
        ∃ q ∈ mask ++ [p], x = overlayPath d q := by
      intro x hx
      rcases OrderedSet.mem_insert_imp hx with rfl | hx
      · exact ⟨p, List.mem_append_right _ (List.mem_singleton.mpr rfl), rfl⟩
      · obtain ⟨q, hq, hx⟩ := h.named x hx
        exact ⟨q, List.mem_append_left _ hq, hx⟩
    have hnames : ∀ q ∈ mask ++ [p], q ∈ FieldMask.insert (overlayPath d p) overlay.snd
        ∨ overlayPath d q ∈ FieldMask.insert (overlayPath d p) overlay.snd := by
      intro q hq
      simp only [FieldMask.mem_insert]
      rcases List.mem_append.mp hq with hq | hq
      · exact (h.names q hq).imp Or.inr Or.inr
      · exact Or.inr (Or.inl (congrArg _ (List.mem_singleton.mp hq)))
    have hpath : overlayPath d p ≠ [] := overlayPath_ne_nil hp
    cases hv : ObjectValue.get d (overlayPath d p) with
    | none =>
      -- there is nothing to delete
      have hgone := look_eq_absent.mpr hv
      have hdelete : ObjectValue.delete overlay.fst (overlayPath d p) = overlay.fst :=
        delete_of_absent h.inOrder ((h.below (overlayPath d p)).elim id (fun hc => hc.trans hgone))
      simp only [hv, hdelete]
      refine ⟨h.inOrder, h.ordered.insert _, h.below, fun x hx hthere => ?_, hnamed, hnames⟩
      rcases FieldMask.mem_insert.mp hx with rfl | hx
      · exact absurd hgone hthere
      · exact h.values x hx hthere
    | some v =>
      simp only [hv]
      refine ⟨inOrder_set h.inOrder (inOrder_of_get hd hv) hpath, h.ordered.insert _, fun q => ?_,
        fun x hx hthere q hq => ?_, hnamed, hnames⟩
      · by_cases hcomp : overlayPath d p <+: q ∨ q <+: overlayPath d p
        · exact Or.inr (look_set_of_get h.inOrder hpath hv hcomp)
        · obtain ⟨hbelow, habove⟩ := not_or.mp hcomp
          rw [look_set_apart h.inOrder hbelow habove]
          exact h.below q
      · by_cases hcomp : overlayPath d p <+: q ∨ q <+: overlayPath d p
        · exact look_set_of_get h.inOrder hpath hv hcomp
        · obtain ⟨hbelow, habove⟩ := not_or.mp hcomp
          rw [look_set_apart h.inOrder hbelow habove]
          rcases FieldMask.mem_insert.mp hx with rfl | hx
          · exact absurd hq hbelow
          · exact h.values x hx hthere q hq

/-- **The patch of a mask is an overlay** of its fields. -/
theorem overlayPatch (hd : d.InOrder) (hmask : ∀ p ∈ mask, p ≠ []) :
    IsOverlayOf d mask (Mutation.overlayPatch d mask) := by
  have hfold : ∀ rest done : FieldMask, (∀ p ∈ rest, p ≠ []) → ∀ overlay,
      IsOverlayOf d done overlay → IsOverlayOf d (done ++ rest) (rest.foldl (overlayStep d) overlay) := by
    intro rest
    induction rest with
    | nil =>
      intro done _ overlay h
      rwa [List.append_nil]
    | cons p rest ih =>
      intro done hrest overlay h
      obtain ⟨hp, hrest⟩ := List.forall_mem_cons.mp hrest
      rw [show done ++ p :: rest = (done ++ [p]) ++ rest by rw [List.append_assoc]; rfl]
      exact ih (done ++ [p]) hrest _ (h.step hd hp)
  exact hfold mask [] hmask _ (nil d)

/-- **The patch of an overlay puts the values the document has** in the fields it
names. -/
theorem getPatch_eq (h : IsOverlayOf d mask overlay) (hd : d.InOrder) (hmask : ∀ p ∈ mask, p ≠ []) :
    getPatch overlay.fst overlay.snd
      = overlay.snd.map (fun x => (x, ObjectValue.get d x)) := by
  have hne : ∀ x ∈ overlay.snd, x ≠ [] := by
    intro x hx
    obtain ⟨p, hp, rfl⟩ := h.named x hx
    exact overlayPath_ne_nil (hmask p hp)
  rw [getPatch, List.filter_eq_self.mpr (fun x hx => decide_eq_true (hne x hx))]
  refine List.map_congr_left (fun x hx => Prod.ext rfl ?_)
  show ObjectValue.get overlay.fst x = ObjectValue.get d x
  cases hv : ObjectValue.get d x with
  | none =>
    have hgone := look_eq_absent.mpr hv
    exact look_eq_absent.mp ((h.below x).elim id (fun hc => hc.trans hgone))
  | some v =>
    have hthere : look d x ≠ .absent := fun hc => by
      rw [look_eq_absent.mp hc] at hv
      exact nomatch hv
    cases hw : ObjectValue.get overlay.fst x with
    | none =>
      have hx' := h.values x hx hthere x (List.prefix_refl x)
      exact absurd (hx'.symm.trans (look_eq_absent.mpr hw)) hthere
    | some w =>
      refine congrArg some (Value.eq_of_look (inOrder_of_get h.inOrder hw) (inOrder_of_get hd hv)
        (fun q => ?_))
      rw [← look_append_of_get hw, ← look_append_of_get hv]
      exact h.values x hx hthere (x ++ q) (List.prefix_append x q)

/-- **The mask of the overlay covers what the mask did.** -/
theorem covers {base : Fields} (h : IsOverlayOf d mask overlay)
    (hcovers : Covers {p | p ∈ mask} base d) : Covers {p | p ∈ overlay.snd} base d := by
  have hmask : ∀ p ∈ mask, look d p ≠ .absent → p ∈ overlay.snd := fun p hp hthere => by
    have hnames := h.names p hp
    rw [overlayPath_of_there hthere, or_self] at hnames
    exact hnames
  refine ⟨fun x hx => ?_, fun q hq => hcovers.outside q (fun p hp => ?_), fun x hx hgone => ?_⟩
  · obtain ⟨p, hp, rfl⟩ := h.named x hx
    exact overlayPath_ne_nil (hcovers.ne_nil p hp)
  · -- a field that is named is above the one that it is named for
    have habove : ∃ x ∈ overlay.snd, x <+: p := by
      rcases h.names p hp with hx | hx
      · exact ⟨p, hx, List.prefix_refl p⟩
      · exact ⟨_, hx, overlayPath_above d p⟩
    obtain ⟨x, hx, hxp⟩ := habove
    obtain ⟨hbelow, habove⟩ := hq x hx
    refine ⟨fun hc => hbelow (hxp.trans hc), fun hc => ?_⟩
    exact (List.prefix_or_prefix_of_prefix hxp hc).elim hbelow habove
  · obtain ⟨p, hp, rfl⟩ := h.named x hx
    have hpgone : look d p = .absent := look_of_absent hgone (overlayPath_above d p)
    obtain ⟨m, hm, hmp, hne, hthere⟩ := hcovers.lost p hp hpgone
    refine ⟨m, hmask m hm hthere, ?_, fun hc => hthere (hc ▸ hgone), hthere⟩
    -- it is above the field that is named
    have hlen : 1 < p.length := by
      have hlt : m.length < p.length :=
        lt_of_le_of_ne (List.IsPrefix.length_le hmp) (fun hc => hne (List.IsPrefix.eq_of_length hmp hc))
      have hpos := List.length_pos_iff.mpr (hcovers.ne_nil m hm)
      omega
    rw [overlayPath_of_absent hpgone hlen]
    exact (List.prefix_concat_iff.mp
      (by rwa [List.dropLast_append_getLast (hcovers.ne_nil p hp)])).resolve_left
      (fun hc => hne (by rwa [List.dropLast_append_getLast] at hc))

end IsOverlayOf

/-! ## The overlay, applied -/

/-- **What some fields of an overlay make of a document**, while others are still to
come: the way to a field that is gone is made, the fields that are there are put,
and what is neither above nor below one of them is as it was. -/
structure IsOverlaid (mask : FieldMask) (d base : Fields) (done : FieldMask) (e : Fields) :
    Prop where
  inOrder : e.InOrder
  gone : ∀ q, (∃ y ∈ done, look d y = .absent ∧ q <+: y.dropLast) → look e q = .map
  there : ∀ q, (¬ ∃ y ∈ done, look d y = .absent ∧ q <+: y.dropLast) →
    (∃ x ∈ done, look d x ≠ .absent ∧ (x <+: q ∨ q <+: x)) → look e q = look d q
  outside : ∀ q, (∀ x ∈ mask, look d x ≠ .absent → ¬ (x <+: q ∨ q <+: x)) → look e q = look base q

namespace IsOverlaid

variable {mask done rest : FieldMask} {base e : Fields} {x : FieldPath}

/-- A field that is there is overlaid by putting its value. -/
theorem put (h : IsOverlaid mask d base done e) (hd : d.InOrder) (hx : x ≠ []) (hmem : x ∈ mask)
    (hlater : ∀ y ∈ done, ¬ x <+: y) {v : Value} (hv : ObjectValue.get d x = some v) :
    IsOverlaid mask d base (done ++ [x]) (apply e (x, ObjectValue.get d x)) := by
  have hthere : look d x ≠ .absent := fun hc => by
    rw [look_eq_absent.mp hc] at hv
    exact nomatch hv
  have hgone : ∀ q, (∃ y ∈ done ++ [x], look d y = .absent ∧ q <+: y.dropLast)
      ↔ ∃ y ∈ done, look d y = .absent ∧ q <+: y.dropLast := by
    intro q
    refine ⟨fun ⟨y, hy, hygone, hq⟩ => ⟨y, ?_, hygone, hq⟩,
      fun ⟨y, hy, h⟩ => ⟨y, List.mem_append_left _ hy, h⟩⟩
    refine (List.mem_append.mp hy).resolve_right (fun hc => hthere ?_)
    rwa [List.mem_singleton.mp hc] at hygone
  rw [hv]
  refine ⟨inOrder_set h.inOrder (inOrder_of_get hd hv) hx, fun q hq => ?_, fun q hq hcomp => ?_,
    fun q hq => ?_⟩
  · obtain ⟨y, hy, hygone, hqy⟩ := (hgone q).mp hq
    show look (ObjectValue.set e x v) q = .map
    have hbelow : ¬ x <+: q :=
      fun hc => hlater y hy (hc.trans (hqy.trans (List.dropLast_prefix y)))
    by_cases habove : q <+: x
    · exact look_set_above h.inOrder habove (fun hc => hbelow (hc ▸ List.prefix_refl x))
    · rw [look_set_apart h.inOrder hbelow habove]
      exact h.gone q ⟨y, hy, hygone, hqy⟩
  · show look (ObjectValue.set e x v) q = look d q
    by_cases hxq : x <+: q ∨ q <+: x
    · exact look_set_of_get h.inOrder hx hv hxq
    · obtain ⟨hbelow, habove⟩ := not_or.mp hxq
      rw [look_set_apart h.inOrder hbelow habove]
      refine h.there q (fun hc => hq ((hgone q).mpr hc)) ?_
      obtain ⟨y, hy, hythere, hyq⟩ := hcomp
      refine ⟨y, (List.mem_append.mp hy).resolve_right (fun hc => hxq ?_), hythere, hyq⟩
      rwa [List.mem_singleton.mp hc] at hyq
  · show look (ObjectValue.set e x v) q = look base q
    obtain ⟨hbelow, habove⟩ := not_or.mp (hq x hmem hthere)
    rw [look_set_apart h.inOrder hbelow habove]
    exact h.outside q hq

/-- A field that is gone is overlaid by making the way to it. -/
theorem delete (h : IsOverlaid mask d base done e)
    (habove : ∃ m ∈ mask, look d m ≠ .absent ∧ m <+: x) (hgone : look d x = .absent) :
    IsOverlaid mask d base (done ++ [x]) (apply e (x, ObjectValue.get d x)) := by
  rw [look_eq_absent.mp hgone]
  have hlook : ∀ q, look (apply e (x, none)) q = if q <+: x.dropLast then .map else look e q :=
    look_inParentMap_id h.inOrder x.dropLast
  refine ⟨inOrder_inParentMap h.inOrder (inOrder_mapAt h.inOrder _), fun q hq => ?_,
    fun q hq hcomp => ?_, fun q hq => ?_⟩
  · rw [hlook]
    split
    · rfl
    · next hnot =>
      obtain ⟨y, hy, hygone, hqy⟩ := hq
      refine h.gone q ⟨y, (List.mem_append.mp hy).resolve_right (fun hc => hnot ?_), hygone, hqy⟩
      rwa [List.mem_singleton.mp hc] at hqy
  · rw [hlook, if_neg (fun hc => hq ⟨x, List.mem_append_right _ (List.mem_singleton.mpr rfl),
      hgone, hc⟩)]
    refine h.there q (fun ⟨y, hy, hc⟩ => hq ⟨y, List.mem_append_left _ hy, hc⟩) ?_
    obtain ⟨y, hy, hythere, hyq⟩ := hcomp
    refine ⟨y, (List.mem_append.mp hy).resolve_right (fun hc => hythere ?_), hythere, hyq⟩
    rw [List.mem_singleton.mp hc]
    exact hgone
  · rw [hlook, if_neg (fun hc => ?_)]
    · exact h.outside q hq
    · obtain ⟨m, hm, hthere, hmx⟩ := habove
      exact hq m hm hthere (List.prefix_or_prefix_of_prefix hmx
        (hc.trans (List.dropLast_prefix x)))

end IsOverlaid

/-- Before any field has been overlaid, the document is as it was. -/
theorem isOverlaid_nil {mask : FieldMask} {base : Fields} (hbase : base.InOrder) :
    IsOverlaid mask d base [] base where
  inOrder := hbase
  gone := fun _ ⟨_, hy, _⟩ => absurd hy List.not_mem_nil
  there := fun _ _ ⟨_, hx, _⟩ => absurd hx List.not_mem_nil
  outside := fun _ _ => rfl

/-- The changes that give the fields of a mask what they are in a document. -/
def overlayChanges (d : Fields) (mask : FieldMask) : TransformMap :=
  mask.map (fun x => (x, ObjectValue.get d x))

/-- **What an overlay makes of a document**, one field after the other; nothing is
deleted that is there. -/
theorem isOverlaid_foldl {mask : FieldMask} {base : Fields} (hd : d.InOrder)
    (hbase : base.InOrder) (hmask : OrderedSet.Ordered FieldPath.Before id mask)
    (hcovers : Covers {p | p ∈ mask} base d) :
    DeletesInVain base (overlayChanges d mask)
      ∧ IsOverlaid mask d base mask ((overlayChanges d mask).foldl apply base) := by
  have hfold : ∀ rest done : FieldMask, done ++ rest = mask → ∀ e,
      IsOverlaid mask d base done e → DeletesInVain e (overlayChanges d rest)
        ∧ IsOverlaid mask d base mask ((overlayChanges d rest).foldl apply e) := by
    intro rest
    induction rest with
    | nil =>
      intro done hdone e h
      rw [List.append_nil] at hdone
      exact ⟨trivial, hdone ▸ h⟩
    | cons x rest ih =>
      intro done hdone e h
      have hx : x ∈ mask := hdone ▸ List.mem_append_right _ (List.mem_cons_self ..)
      have horder := List.pairwise_append.mp (hdone.symm ▸ hmask)
      have hlater : ∀ y ∈ done, ¬ x <+: y := fun y hy hc =>
        FieldPath.not_before_above hc (horder.2.2 y hy x (List.mem_cons_self ..))
      have hnext : done ++ [x] ++ rest = mask := by
        rw [List.append_assoc]
        exact hdone
      cases hv : ObjectValue.get d x with
      | some v =>
        obtain ⟨hvain, hall⟩ := ih (done ++ [x]) hnext _
          (h.put hd (hcovers.ne_nil x hx) hx hlater hv)
        exact ⟨⟨fun hc => absurd (hv.symm.trans hc) nofun, hvain⟩, hall⟩
      | none =>
        have hgone := look_eq_absent.mpr hv
        obtain ⟨m, hm, hmx, hne, hthere⟩ := hcovers.lost x hx hgone
        obtain ⟨hvain, hall⟩ := ih (done ++ [x]) hnext _ (h.delete ⟨m, hm, hthere, hmx⟩ hgone)
        refine ⟨⟨fun _ => ?_, hvain⟩, hall⟩
        -- the field above it that is there has been put
        have hmdone : m ∈ done := by
          rw [← hdone] at hm
          refine (List.mem_append.mp hm).resolve_right (fun hc => ?_)
          refine FieldPath.not_before_above hmx ?_
          exact (List.pairwise_cons.mp horder.2.1).1 m ((List.mem_cons.mp hc).resolve_left hne)
        refine (h.there x (fun ⟨y, hy, _, hxy⟩ => ?_) ⟨m, hmdone, hthere, Or.inl hmx⟩).trans hgone
        exact hlater y hy (hxy.trans (List.dropLast_prefix y))
  exact hfold mask [] rfl base (isOverlaid_nil hbase)

/-- **The document is made** exactly when each field that is gone was in a map. -/
theorem IsOverlaid.eq_iff {mask : FieldMask} {base e : Fields} (h : IsOverlaid mask d base mask e)
    (hd : d.InOrder) (hcovers : Covers {p | p ∈ mask} base d) :
    e = d ↔ ∀ y ∈ mask, look d y = .absent → look d y.dropLast = .map := by
  constructor
  · rintro rfl y hy hgone
    exact h.gone y.dropLast ⟨y, hy, hgone, List.prefix_refl _⟩
  · intro hmaps
    refine eq_of_look h.inOrder hd (fun q => ?_)
    by_cases hq : ∃ y ∈ mask, look d y = .absent ∧ q <+: y.dropLast
    · rw [h.gone q hq]
      obtain ⟨y, hy, hgone, hqy⟩ := hq
      have hmap := hmaps y hy hgone
      by_cases hne : q = y.dropLast
      · rw [hne, hmap]
      · exact (look_above (by rw [hmap]; exact nofun) hqy hne).symm
    · by_cases hcomp : ∃ x ∈ mask, look d x ≠ .absent ∧ (x <+: q ∨ q <+: x)
      · exact h.there q hq hcomp
      · have hout : ∀ x ∈ mask, look d x ≠ .absent → ¬ (x <+: q ∨ q <+: x) :=
          fun x hx hthere hxq => hcomp ⟨x, hx, hthere, hxq⟩
        rw [h.outside q hout]
        refine (hcovers.outside q (fun x hx => ?_)).symm
        by_cases hthere : look d x = .absent
        · -- a field above it is there
          obtain ⟨m, hm, hmx, -, hmthere⟩ := hcovers.lost x hx hthere
          obtain ⟨hbelow, habove⟩ := not_or.mp (hout m hm hmthere)
          exact ⟨fun hc => hbelow (hmx.trans hc), fun hc =>
            (List.prefix_or_prefix_of_prefix hmx hc).elim hbelow habove⟩
        · exact not_or.mp (hout x hx hthere)

/-- No field of the mask has been lost together with the field that it was in, unless
that was in a map. -/
def MapsKept (d : Fields) (mask : FieldMask) : Prop :=
  ∀ p ∈ mask, look d p = .absent → look d p.dropLast = .absent →
    look d p.dropLast.dropLast = .map

/-- **An overlay, applied to a document.** -/
theorem isOverlaid_overlayPatch {mask : FieldMask} {base : Fields} (hd : d.InOrder)
    (hbase : base.InOrder) (hcovers : Covers {p | p ∈ mask} base d) :
    IsOverlaid (overlayPatch d mask).snd d base (overlayPatch d mask).snd
      (ObjectValue.setAll base (getPatch (overlayPatch d mask).fst (overlayPatch d mask).snd)) := by
  have hover := IsOverlayOf.overlayPatch hd hcovers.ne_nil
  have hcovers' := hover.covers hcovers
  obtain ⟨hvain, hall⟩ := isOverlaid_foldl hd hbase hover.ordered hcovers'
  have hproper : Proper (overlayChanges d (overlayPatch d mask).snd) := by
    intro c hc
    obtain ⟨x, hx, rfl⟩ := List.mem_map.mp hc
    exact ⟨hcovers'.ne_nil x hx, fun v hv => inOrder_of_get hd hv⟩
  rw [hover.getPatch_eq hd hcovers.ne_nil]
  show IsOverlaid _ d base _ (ObjectValue.setAll base (overlayChanges d (overlayPatch d mask).snd))
  rw [setAll_eq_foldl hbase hproper hvain]
  exact hall

/-- **When an overlay makes the document**: applied to what the server has, it
makes the document it was made of exactly when no field that has been patched has
been lost together with the field that it was in, unless that was in a map. -/
theorem overlayPatch_eq_iff {mask : FieldMask} {base : Fields} (hd : d.InOrder)
    (hbase : base.InOrder) (hcovers : Covers {p | p ∈ mask} base d) :
    ObjectValue.setAll base
        (getPatch (overlayPatch d mask).fst (overlayPatch d mask).snd) = d
      ↔ MapsKept d mask := by
  have hover := IsOverlayOf.overlayPatch hd hcovers.ne_nil
  rw [(isOverlaid_overlayPatch hd hbase hcovers).eq_iff hd (hover.covers hcovers)]
  have hlong : ∀ p ∈ mask, look d p = .absent → 1 < p.length := by
    intro p hp hgone
    obtain ⟨m, hm, hmp, hne, -⟩ := hcovers.lost p hp hgone
    have hlt : m.length < p.length :=
      lt_of_le_of_ne (List.IsPrefix.length_le hmp) (fun hc => hne (List.IsPrefix.eq_of_length hmp hc))
    have hpos := List.length_pos_iff.mpr (hcovers.ne_nil m hm)
    omega
  constructor
  · intro hmaps p hp hgone hgone'
    rcases hover.names p hp with hx | hx
    · exact absurd (hmaps p hx hgone) (by rw [hgone']; exact nofun)
    · rw [overlayPath_of_absent hgone (hlong p hp hgone)] at hx
      exact hmaps _ hx hgone'
  · intro hkept x hx hgone
    obtain ⟨p, hp, rfl⟩ := hover.named x hx
    have hpgone : look d p = .absent := look_of_absent hgone (overlayPath_above d p)
    rw [overlayPath_of_absent hpgone (hlong p hp hpgone)] at hgone ⊢
    exact hkept p hp hpgone hgone

end Mutation

end Firestore
