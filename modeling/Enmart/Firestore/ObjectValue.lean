import Enmart.Base.OrderedSet
import Enmart.Firestore.Write

/-!
# The fields of a document, changed

The client keeps a map as an array of its entries, in the order of their keys, and
changes it by going through the array, the entries to put and the keys to delete
side by side (`applyChanges`).
-/

namespace Firestore

/-- One name comes before another. -/
abbrev Before (k l : String) : Prop := precedes k.toList l.toList = true

instance : IsStrictTotalOrder String Before where
  irrefl k h := Bool.false_ne_true ((precedes_irrefl k.toList).symm.trans h)
  trans _ _ _ h h' := precedes_trans h h'
  trichotomous k l h h' := by
    by_contra hne
    exact h' (precedes_total (fun hc => hne (String.toList_injective hc)) (Bool.eq_false_iff.mpr h))

/-- A map in order is a set in order of its entries. -/
theorem Fields.sorted_iff {d : Fields} : d.Sorted ↔ OrderedSet.Ordered Before Prod.fst d :=
  List.pairwise_map

/-- In a sorted map a name reads a value exactly when the two are an entry. -/
theorem Fields.mem_iff_get? {d : Fields} (hd : d.Sorted) {k : String} {v : Value} :
    (k, v) ∈ d ↔ d.get? k = some v := by
  induction d with
  | nil => simp [get?]
  | cons f d ih =>
    obtain ⟨l, w⟩ := f
    obtain ⟨hl, hd'⟩ := List.pairwise_cons.mp hd
    rw [List.mem_cons, get?_cons, Prod.mk.injEq]
    by_cases hk : k = l
    · subst hk
      rw [if_pos rfl, Option.some.injEq]
      constructor
      · rintro (⟨-, rfl⟩ | h)
        · rfl
        · exact absurd (hl k (List.mem_map_of_mem h)) (irrefl_of Before k)
      · exact fun h => Or.inl ⟨rfl, h.symm⟩
    · rw [if_neg hk, ← ih hd']
      exact or_iff_right (fun h => hk h.1)

/-! ## Going through the entries -/

/-- How many entries there are when the changes are made: those that are put, and
those that stay. -/
def calculateSizeOfUnion (source upserts : Fields) (deletes : List String) : ℕ :=
  upserts.length
    + source.countP (fun f => decide (f.fst ∉ deletes ∧ f.fst ∉ upserts.map Prod.fst))

/-- **The loop**, until so many entries have been written. -/
def mergeChanges (source upserts : Fields) (deletes : List String) : ℕ → Fields
  | 0 => []
  | n + 1 =>
    match source with
    | (sourceKey, w) :: source' =>
      if deletes.head? = some sourceKey then
        mergeChanges source' upserts deletes.tail (n + 1)
      else
        match upserts with
        | [] => (sourceKey, w) :: mergeChanges source' [] deletes n
        | (k, v) :: upserts' =>
          if k = sourceKey then (k, v) :: mergeChanges source' upserts' deletes n
          else if Before sourceKey k then
            (sourceKey, w) :: mergeChanges source' ((k, v) :: upserts') deletes n
          else (k, v) :: mergeChanges ((sourceKey, w) :: source') upserts' deletes n
    | [] =>
      match upserts with
      | (k, v) :: upserts' => (k, v) :: mergeChanges [] upserts' deletes n
      -- there are as many entries as are to be written, so they have been
      | [] => []
termination_by source.length + upserts.length

/-- **The map with entries put and keys deleted.** -/
def applyChanges (source upserts : Fields) (deletes : List String) : Fields :=
  mergeChanges source upserts deletes (calculateSizeOfUnion source upserts deletes)

/-- The loop, until there is nothing left to write. -/
def mergeAll (source upserts : Fields) (deletes : List String) : Fields :=
  match source with
  | [] => upserts
  | (sourceKey, w) :: source' =>
    if deletes.head? = some sourceKey then mergeAll source' upserts deletes.tail
    else
      match upserts with
      | [] => (sourceKey, w) :: mergeAll source' [] deletes
      | (k, v) :: upserts' =>
        if k = sourceKey then (k, v) :: mergeAll source' upserts' deletes
        else if Before sourceKey k then
          (sourceKey, w) :: mergeAll source' ((k, v) :: upserts') deletes
        else (k, v) :: mergeAll ((sourceKey, w) :: source') upserts' deletes
termination_by source.length + upserts.length

/-- The loop stops where it is told to. -/
theorem mergeChanges_eq_take (source upserts : Fields) (deletes : List String) (n : ℕ) :
    mergeChanges source upserts deletes n = (mergeAll source upserts deletes).take n := by
  induction source, upserts, deletes, n using mergeChanges.induct with
  | case1 => rw [mergeChanges.eq_1, List.take_zero]
  | case2 upserts deletes n sourceKey w source h ih =>
    rw [mergeChanges.eq_def, mergeAll.eq_def]
    show (if _ then _ else _) = List.take _ (if _ then _ else _)
    rw [if_pos h, if_pos h]
    exact ih
  | case3 deletes n sourceKey w source h ih =>
    rw [mergeChanges, if_neg h, ih, mergeAll, if_neg h, List.take_succ_cons]
  | case4 deletes n w source k v upserts h ih =>
    rw [mergeChanges, if_neg h, if_pos rfl, ih, mergeAll, if_neg h, if_pos rfl, List.take_succ_cons]
  | case5 deletes n sourceKey w source h k v upserts hne hlt ih =>
    rw [mergeChanges, if_neg h, if_neg hne, if_pos hlt, ih, mergeAll, if_neg h, if_neg hne,
      if_pos hlt, List.take_succ_cons]
  | case6 deletes n sourceKey w source h k v upserts hne hlt ih =>
    rw [mergeChanges, if_neg h, if_neg hne, if_neg hlt, ih, mergeAll, if_neg h, if_neg hne,
      if_neg hlt, List.take_succ_cons]
  | case7 deletes n k v upserts ih =>
    rw [mergeChanges, ih, mergeAll, mergeAll, List.take_succ_cons]
  | case8 deletes n => rw [mergeChanges, mergeAll, List.take_nil]

/-- **The keys that are deleted**: the loop waits for each key in its turn, and
waits for good for one that is not there. -/
def IsDeleted (source : Fields) (deletes : List String) (k : String) : Prop :=
  k ∈ deletes ∧ ∀ l ∈ deletes, l = k ∨ Before l k → l ∈ source.map Prod.fst

/-- The first key is deleted, and each other key once the loop has come to it. -/
theorem isDeleted_cons {source : Fields} {deletes : List String} {k l : String} {w : Value}
    (hsource : Fields.Sorted ((l, w) :: source)) (hdeletes : OrderedSet.Ordered Before id (l :: deletes)) :
    IsDeleted ((l, w) :: source) (l :: deletes) k ↔ k = l ∨ IsDeleted source deletes k := by
  obtain ⟨hl, -⟩ := List.pairwise_cons.mp hsource
  obtain ⟨hl', -⟩ := List.pairwise_cons.mp hdeletes
  have hne : ∀ m ∈ deletes, m ≠ l := fun m hm h => irrefl_of Before l (h ▸ hl' m hm)
  constructor
  · rintro ⟨hk, h⟩
    rcases List.mem_cons.mp hk with rfl | hk
    · exact Or.inl rfl
    · refine Or.inr ⟨hk, fun m hm hmk => ?_⟩
      exact (List.mem_cons.mp (h m (List.mem_cons_of_mem l hm) hmk)).resolve_left (hne m hm)
  · rintro (rfl | ⟨hk, h⟩)
    · refine ⟨List.mem_cons_self .., fun m hm hmk => ?_⟩
      rcases List.mem_cons.mp hm with rfl | hm
      · exact List.mem_cons_self ..
      · rcases hmk with rfl | hmk
        · exact List.mem_cons_self ..
        · exact absurd (hl' m hm) (asymm_of Before hmk)
    · refine ⟨List.mem_cons_of_mem l hk, fun m hm hmk => ?_⟩
      rcases List.mem_cons.mp hm with rfl | hm
      · exact List.mem_cons_self ..
      · exact List.mem_cons_of_mem l (h m hm hmk)

/-- An entry whose key is not the next to be deleted makes no difference to which
keys are. -/
theorem isDeleted_of_head? {source : Fields} {deletes : List String} {k l : String} {w : Value}
    (hsource : Fields.Sorted ((l, w) :: source)) (hdeletes : OrderedSet.Ordered Before id deletes)
    (h : deletes.head? ≠ some l) :
    IsDeleted ((l, w) :: source) deletes k ↔ IsDeleted source deletes k := by
  obtain ⟨hl, -⟩ := List.pairwise_cons.mp hsource
  constructor
  · rintro ⟨hk, hwaited⟩
    have hne : ∀ m ∈ deletes, m = k ∨ Before m k → m ≠ l := by
      rintro m hm hmk rfl
      cases deletes with
      | nil => exact absurd hm List.not_mem_nil
      | cons first deletes =>
        -- the key that is waited for comes before every entry there is
        obtain ⟨hfirst, -⟩ := List.pairwise_cons.mp hdeletes
        have hm' := (List.mem_cons.mp hm).resolve_left (fun hc => h (congrArg some hc.symm))
        have hfm : Before first m := hfirst m hm'
        have hfk : Before first k := by
          rcases hmk with rfl | hmk
          · exact hfm
          · exact trans_of Before hfm hmk
        rcases List.mem_cons.mp (hwaited first (List.mem_cons_self ..) (Or.inr hfk)) with hc | hc
        · exact irrefl_of Before m (by rw [hc] at hfm; exact hfm)
        · exact asymm_of Before hfm (hl first hc)
    exact ⟨hk, fun m hm hmk => (List.mem_cons.mp (hwaited m hm hmk)).resolve_left (hne m hm hmk)⟩
  · exact fun ⟨hk, hwaited⟩ => ⟨hk, fun m hm hmk => List.mem_cons_of_mem l (hwaited m hm hmk)⟩

/-- A key that comes before those of a map in order is none of them. -/
theorem Fields.Sorted.ne_of_mem {d : Fields} {k : String} {v : Value}
    (hd : Fields.Sorted ((k, v) :: d)) {e : String × Value} (he : e ∈ d) : e.fst ≠ k :=
  fun h => irrefl_of Before k (h ▸ (List.pairwise_cons.mp hd).1 e.fst (List.mem_map_of_mem he))

/-- The key of the first entry is not deleted from the entries after it. -/
theorem not_isDeleted_head {source : Fields} {deletes : List String} {l : String} {w : Value}
    (hsource : Fields.Sorted ((l, w) :: source)) : ¬ IsDeleted source deletes l := by
  intro hdel
  obtain ⟨f, hf, hfst⟩ := List.mem_map.mp (hdel.2 l hdel.1 (Or.inl rfl))
  exact hsource.ne_of_mem hf hfst

/-- **What the loop writes**: what is put, and what is there and is neither put nor
deleted. -/
theorem mem_mergeAll {source upserts : Fields} {deletes : List String} (hsource : source.Sorted)
    (hupserts : upserts.Sorted) (hdeletes : OrderedSet.Ordered Before id deletes)
    (e : String × Value) :
    e ∈ mergeAll source upserts deletes
      ↔ e ∈ upserts ∨ (e ∈ source ∧ e.fst ∉ upserts.map Prod.fst
        ∧ ¬ IsDeleted source deletes e.fst) := by
  induction source, upserts, deletes using mergeAll.induct with
  | case1 upserts deletes =>
    rw [mergeAll]
    exact (or_iff_left (fun h => List.not_mem_nil h.1)).symm
  | case2 upserts deletes sourceKey w source h ih =>
    obtain ⟨deletes, rfl⟩ : ∃ tail, deletes = sourceKey :: tail := by
      cases deletes with
      | nil => exact nomatch h
      | cons first deletes => exact ⟨deletes, by rw [Option.some.inj h]⟩
    rw [mergeAll.eq_def]
    show e ∈ (if _ then _ else _) ↔ _
    rw [if_pos h, ih (List.pairwise_cons.mp hsource).2 hupserts (List.pairwise_cons.mp hdeletes).2,
      isDeleted_cons hsource hdeletes, List.mem_cons, List.tail_cons]
    have hkey : e ∈ source → e.fst ≠ sourceKey := hsource.ne_of_mem
    grind
  | case3 deletes sourceKey w source h ih =>
    have hnot : ¬ IsDeleted source deletes sourceKey := not_isDeleted_head hsource
    rw [mergeAll, if_neg h, List.mem_cons, ih (List.pairwise_cons.mp hsource).2 hupserts hdeletes,
      isDeleted_of_head? hsource hdeletes h, List.mem_cons]
    grind
  | case4 deletes w source k v upserts h ih =>
    have hkey : e ∈ source → e.fst ≠ k := hsource.ne_of_mem
    rw [mergeAll, if_neg h, if_pos rfl, List.mem_cons, ih (List.pairwise_cons.mp hsource).2
      (List.pairwise_cons.mp hupserts).2 hdeletes, isDeleted_of_head? hsource hdeletes h,
      List.mem_cons, List.mem_cons, List.map_cons, List.mem_cons]
    grind
  | case5 deletes sourceKey w source h k v upserts hne hlt ih =>
    have hnot : ¬ IsDeleted source deletes sourceKey := not_isDeleted_head hsource
    have hfresh : sourceKey ∉ ((k, v) :: upserts).map Prod.fst := fun hmem => by
      rcases List.mem_cons.mp hmem with hk | hk
      · exact hne hk.symm
      · exact asymm_of Before hlt ((List.pairwise_cons.mp hupserts).1 sourceKey hk)
    rw [mergeAll, if_neg h, if_neg hne, if_pos hlt, List.mem_cons,
      ih (List.pairwise_cons.mp hsource).2 hupserts hdeletes,
      isDeleted_of_head? hsource hdeletes h, List.mem_cons]
    grind
  | case6 deletes sourceKey w source h k v upserts hne hlt ih =>
    have hk : Before k sourceKey :=
      ((trichotomous_of Before k sourceKey).resolve_right (not_or.mpr ⟨hne, hlt⟩))
    have hkey : e ∈ (sourceKey, w) :: source → e.fst ≠ k := fun he hek => by
      rcases List.mem_cons.mp he with rfl | he
      · exact hne hek.symm
      · exact asymm_of Before hk
          (hek ▸ (List.pairwise_cons.mp hsource).1 e.fst (List.mem_map_of_mem he))
    rw [mergeAll, if_neg h, if_neg hne, if_neg hlt, List.mem_cons,
      ih hsource (List.pairwise_cons.mp hupserts).2 hdeletes, List.mem_cons, List.map_cons,
      List.mem_cons]
    grind

/-- An entry that comes before the others may be written before them. -/
theorem sorted_cons_mergeAll {source upserts : Fields} {deletes : List String} {k : String}
    {v : Value} (hsource : source.Sorted) (hupserts : upserts.Sorted)
    (hdeletes : OrderedSet.Ordered Before id deletes)
    (hk : ∀ l ∈ source.map Prod.fst, Before k l) (hk' : ∀ l ∈ upserts.map Prod.fst, Before k l)
    (h : (mergeAll source upserts deletes).Sorted) :
    Fields.Sorted ((k, v) :: mergeAll source upserts deletes) := by
  refine List.pairwise_cons.mpr ⟨fun l hl => ?_, h⟩
  obtain ⟨e, he, rfl⟩ := List.mem_map.mp hl
  rcases (mem_mergeAll hsource hupserts hdeletes e).mp he with he | he
  · exact hk' e.fst (List.mem_map_of_mem he)
  · exact hk e.fst (List.mem_map_of_mem he.1)

/-- A key that comes before the first entry comes before all entries. -/
theorem Fields.Sorted.before {d : Fields} {k l : String} {v : Value}
    (hd : Fields.Sorted ((l, v) :: d)) (hk : Before k l) :
    ∀ m ∈ List.map Prod.fst ((l, v) :: d), Before k m := by
  intro m hm
  rcases List.mem_cons.mp hm with rfl | hm
  · exact hk
  · exact trans_of Before hk ((List.pairwise_cons.mp hd).1 m hm)

/-- The loop writes a sorted map. -/
theorem sorted_mergeAll {source upserts : Fields} {deletes : List String} (hsource : source.Sorted)
    (hupserts : upserts.Sorted) (hdeletes : OrderedSet.Ordered Before id deletes) :
    (mergeAll source upserts deletes).Sorted := by
  induction source, upserts, deletes using mergeAll.induct with
  | case1 upserts deletes =>
    rw [mergeAll]
    exact hupserts
  | case2 upserts deletes sourceKey w source h ih =>
    obtain ⟨deletes, rfl⟩ : ∃ tail, deletes = sourceKey :: tail := by
      cases deletes with
      | nil => exact nomatch h
      | cons first deletes => exact ⟨deletes, by rw [Option.some.inj h]⟩
    rw [mergeAll.eq_def]
    show Fields.Sorted (if _ then _ else _)
    rw [if_pos h]
    exact ih (List.pairwise_cons.mp hsource).2 hupserts (List.pairwise_cons.mp hdeletes).2
  | case3 deletes sourceKey w source h ih =>
    obtain ⟨hl, hsource'⟩ := List.pairwise_cons.mp hsource
    rw [mergeAll, if_neg h]
    exact sorted_cons_mergeAll hsource' hupserts hdeletes hl (fun l hl => absurd hl List.not_mem_nil)
      (ih hsource' hupserts hdeletes)
  | case4 deletes w source k v upserts h ih =>
    obtain ⟨hl, hsource'⟩ := List.pairwise_cons.mp hsource
    obtain ⟨hl', hupserts'⟩ := List.pairwise_cons.mp hupserts
    rw [mergeAll, if_neg h, if_pos rfl]
    exact sorted_cons_mergeAll hsource' hupserts' hdeletes hl hl' (ih hsource' hupserts' hdeletes)
  | case5 deletes sourceKey w source h k v upserts hne hlt ih =>
    obtain ⟨hl, hsource'⟩ := List.pairwise_cons.mp hsource
    rw [mergeAll, if_neg h, if_neg hne, if_pos hlt]
    exact sorted_cons_mergeAll hsource' hupserts hdeletes hl (hupserts.before hlt)
      (ih hsource' hupserts hdeletes)
  | case6 deletes sourceKey w source h k v upserts hne hlt ih =>
    obtain ⟨hl', hupserts'⟩ := List.pairwise_cons.mp hupserts
    have hk : Before k sourceKey :=
      ((trichotomous_of Before k sourceKey).resolve_right (not_or.mpr ⟨hne, hlt⟩))
    rw [mergeAll, if_neg h, if_neg hne, if_neg hlt]
    exact sorted_cons_mergeAll hsource hupserts' hdeletes (hsource.before hk) hl'
      (ih hsource hupserts' hdeletes)

/-- **The map with entries put and keys deleted**, as it is meant. -/
def Fields.changed (source upserts : Fields) (deletes : List String) : Fields :=
  Fields.patch (source.filter (fun f => decide (f.fst ∉ deletes))) (Fields.values upserts)

/-- Patching a sorted document leaves it sorted. -/
theorem Fields.Sorted.patch {d : Fields} (hd : d.Sorted) (us : Update) : (d.patch us).Sorted := by
  have hfold : ∀ acc : Fields, acc.Sorted →
      Fields.Sorted (us.foldl (fun acc u => acc.set u.fst (u.snd.apply (d.get? u.fst))) acc) := by
    induction us with
    | nil => exact fun acc hacc => hacc
    | cons u us ih => exact fun acc hacc => ih _ (hacc.set u.fst _)
  exact hfold d hd

/-- Leaving out entries of a sorted map leaves it sorted. -/
theorem Fields.Sorted.filter {d : Fields} (hd : d.Sorted) (p : String × Value → Bool) :
    Fields.Sorted (d.filter p) :=
  List.Pairwise.sublist (List.filter_sublist.map Prod.fst) hd

/-- The map as it is meant is sorted. -/
theorem Fields.Sorted.changed {source : Fields} (hsource : source.Sorted) (upserts : Fields)
    (deletes : List String) : (source.changed upserts deletes).Sorted :=
  (hsource.filter _).patch _

/-- The map as it is meant has the entries that are put, and those that are
neither put nor deleted. -/
theorem Fields.mem_changed {source upserts : Fields} {deletes : List String}
    (hsource : source.Sorted) (hupserts : upserts.Sorted) (e : String × Value) :
    e ∈ source.changed upserts deletes
      ↔ e ∈ upserts ∨ (e ∈ source ∧ e.fst ∉ upserts.map Prod.fst ∧ e.fst ∉ deletes) := by
  obtain ⟨k, v⟩ := e
  have hnone : upserts.get? k = none ↔ k ∉ upserts.map Prod.fst := by
    refine ⟨fun h hk => ?_, get?_eq_none⟩
    obtain ⟨⟨l, w⟩, hf, rfl⟩ := List.mem_map.mp hk
    exact absurd ((mem_iff_get? hupserts).mp hf) (by rw [h]; exact nofun)
  rw [mem_iff_get? (hsource.changed upserts deletes), changed, get?_patch_values hupserts,
    Option.or_eq_some_iff, ← mem_iff_get? hupserts, ← mem_iff_get? (hsource.filter _),
    List.mem_filter, decide_eq_true_eq, hnone]
  tauto

/-- **The size that is calculated is the size of the map as it is meant.** -/
theorem calculateSizeOfUnion_eq {source upserts : Fields} {deletes : List String}
    (hsource : source.Sorted) (hupserts : upserts.Sorted) :
    calculateSizeOfUnion source upserts deletes = (source.changed upserts deletes).length := by
  have hnodup : (upserts ++ source.filter
      (fun f => decide (f.fst ∉ deletes ∧ f.fst ∉ upserts.map Prod.fst))).Nodup := by
    refine List.Nodup.append (Fields.sorted_iff.mp hupserts).nodup
      (Fields.sorted_iff.mp (hsource.filter _)).nodup (fun e he he' => ?_)
    exact (of_decide_eq_true (List.mem_filter.mp he').2).2 (List.mem_map_of_mem he)
  have hperm : (source.changed upserts deletes).Perm (upserts ++ source.filter
      (fun f => decide (f.fst ∉ deletes ∧ f.fst ∉ upserts.map Prod.fst))) := by
    refine (List.perm_ext_iff_of_nodup
      (Fields.sorted_iff.mp (hsource.changed upserts deletes)).nodup hnodup).mpr (fun e => ?_)
    rw [Fields.mem_changed hsource hupserts, List.mem_append, List.mem_filter, decide_eq_true_eq]
    tauto
  rw [hperm.length_eq, List.length_append, calculateSizeOfUnion, List.countP_eq_length_filter]

/-- **The loop stops too early or it does not**: the map is as it is meant exactly
when what the loop would still write comes last. -/
theorem applyChanges_eq_changed_iff {source upserts : Fields} {deletes : List String}
    (hsource : source.Sorted) (hupserts : upserts.Sorted)
    (hdeletes : OrderedSet.Ordered Before id deletes) :
    applyChanges source upserts deletes = source.changed upserts deletes
      ↔ ∀ e ∈ source, e.fst ∉ upserts.map Prod.fst → ¬ IsDeleted source deletes e.fst →
        e.fst ∈ deletes → ∀ f ∈ source.changed upserts deletes, Before f.fst e.fst := by
  have hmem := mem_mergeAll hsource hupserts hdeletes
  have hmem' : ∀ e, e ∈ source.changed upserts deletes
      ↔ e ∈ upserts ∨ (e ∈ source ∧ e.fst ∉ upserts.map Prod.fst ∧ e.fst ∉ deletes) :=
    Fields.mem_changed hsource hupserts
  have hsub : ∀ e ∈ source.changed upserts deletes, e ∈ mergeAll source upserts deletes := by
    intro e he
    refine (hmem e).mpr (((hmem' e).mp he).imp_right (fun h => ⟨h.1, h.2.1, fun hdel => ?_⟩))
    exact h.2.2 hdel.1
  rw [applyChanges, mergeChanges_eq_take, calculateSizeOfUnion_eq hsource hupserts,
    (Fields.sorted_iff.mp (sorted_mergeAll hsource hupserts hdeletes)).take_eq_iff
      (Fields.sorted_iff.mp (hsource.changed upserts deletes)) hsub]
  constructor
  · intro h e he heu hwaits hdel f hf
    refine h e ((hmem e).mpr (Or.inr ⟨he, heu, hwaits⟩)) (fun he' => ?_) f hf
    rcases (hmem' e).mp he' with he' | he'
    · exact heu (List.mem_map_of_mem he')
    · exact he'.2.2 hdel
  · intro h e he hnot f hf
    have hput : e ∉ upserts := fun he' => hnot ((hmem' e).mpr (Or.inl he'))
    obtain ⟨hes, heu, hwaits⟩ := ((hmem e).mp he).resolve_left hput
    refine h e hes heu hwaits ?_ f hf
    by_contra hdel
    exact hnot ((hmem' e).mpr (Or.inr ⟨hes, heu, hdel⟩))

/-- **When the keys are deleted.** The entries are put and the keys deleted exactly
when each key that is there, and comes after one that is not, comes after all
that stays. -/
theorem applyChanges_eq_iff (source upserts : Fields) (deletes : List String)
    (hsource : source.Sorted) (hupserts : upserts.Sorted)
    (hdeletes : OrderedSet.Ordered Before id deletes) :
    applyChanges source upserts deletes = source.changed upserts deletes
      ↔ ∀ k ∈ deletes, k ∈ source.map Prod.fst → k ∉ upserts.map Prod.fst →
        (∃ l ∈ deletes, Before l k ∧ l ∉ source.map Prod.fst) →
        ∀ m ∈ (source.changed upserts deletes).map Prod.fst, Before m k := by
  rw [applyChanges_eq_changed_iff hsource hupserts hdeletes]
  constructor
  · rintro h k hk hks hku ⟨l, hl, hlk, hnot⟩ m hm
    obtain ⟨e, he, rfl⟩ := List.mem_map.mp hks
    obtain ⟨f, hf, rfl⟩ := List.mem_map.mp hm
    exact h e he hku (fun hdel => hnot (hdel.2 l hl (Or.inr hlk))) hk f hf
  · intro h e he heu hwaits hdel f hf
    refine h e.fst hdel (List.mem_map_of_mem he) heu ?_ f.fst (List.mem_map_of_mem hf)
    by_contra hnone
    refine hwaits ⟨hdel, fun l hl hlk => ?_⟩
    rcases hlk with rfl | hlk
    · exact List.mem_map_of_mem he
    · by_contra hls
      exact hnone ⟨l, hl, hlk, hls⟩

/-- Of two fields the first is to be deleted, with one that is not there: the first
stays, and the second is lost. -/
theorem applyChanges_ne_changed :
    applyChanges [("b", .int 0), ("c", .int 0)] [] ["a", "b"]
      ≠ Fields.changed [("b", .int 0), ("c", .int 0)] [] ["a", "b"] := by
  intro h
  have hlast := (applyChanges_eq_iff [("b", .int 0), ("c", .int 0)] [] ["a", "b"]
    (by unfold Fields.Sorted; decide) List.Pairwise.nil
    (by unfold OrderedSet.Ordered; decide)).mp h "b" (by decide) (by decide) (by decide)
    ⟨"a", by decide, by decide, by decide⟩ "c" (by decide)
  exact absurd hlast (by decide)

end Firestore
