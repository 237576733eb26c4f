import Mathlib

/-!
# Arrays used as sets

An array field can be edited by value rather than by position: one
operation removes every element equal to a given one, the other appends an
element unless an equal one is present. `SetArray.remove` and
`SetArray.union` are these two, over any type with decidable equality.

They say nothing about *keys*. Where the elements carry one, the array is
read key by key: `SetArray.entries` is the sublist of the elements with a
given key, and removal and insertion are followed there. A sum over the
array changes by what the removed and the inserted element contribute, since
the only entry of a key can be drawn to the front
(`SetArray.perm_cons_remove`).
-/

namespace SetArray

variable {α β κ : Type} [DecidableEq α] [DecidableEq β] [DecidableEq κ]

/-- Remove every element equal to one of `vs`. -/
def remove (xs vs : List α) : List α := xs.filter (fun x => x ∉ vs)

/-- Append the elements of `vs` that are not there yet, in order. -/
def union (xs vs : List α) : List α :=
  vs.foldl (fun acc v => if v ∈ acc then acc else acc ++ [v]) xs

theorem mem_remove {xs vs : List α} {x : α} :
    x ∈ remove xs vs ↔ x ∈ xs ∧ x ∉ vs := by
  rw [remove, List.mem_filter, decide_eq_true_eq]

/-- **Removing what is not there changes nothing**, and nothing reports
it. -/
theorem remove_of_notMem {xs : List α} {v : α} (h : v ∉ xs) :
    remove xs [v] = xs := by
  refine List.filter_eq_self.mpr (fun x hx => ?_)
  rw [decide_eq_true_eq, List.mem_singleton]
  rintro rfl
  exact h hx

/-- Removal leaves the array alone only when there was nothing to remove. -/
theorem remove_eq_self_iff {xs : List α} {v : α} :
    remove xs [v] = xs ↔ v ∉ xs := by
  constructor
  · intro h hv
    have hmem : v ∈ remove xs [v] := by rw [h]; exact hv
    exact (mem_remove.mp hmem).2 (List.mem_singleton.mpr rfl)
  · exact remove_of_notMem

theorem union_singleton (xs : List α) (v : α) :
    union xs [v] = if v ∈ xs then xs else xs ++ [v] := rfl

/-- An element already present is merged with the equal one. -/
theorem union_of_mem {xs : List α} {v : α} (h : v ∈ xs) :
    union xs [v] = xs := by
  rw [union_singleton, if_pos h]

/-- A new element goes to the end. -/
theorem union_of_notMem {xs : List α} {v : α} (h : v ∉ xs) :
    union xs [v] = xs ++ [v] := by
  rw [union_singleton, if_neg h]

theorem mem_union_singleton {xs : List α} {v x : α} :
    x ∈ union xs [v] ↔ x ∈ xs ∨ x = v := by
  rw [union_singleton]
  split
  · next h =>
    refine ⟨Or.inl, fun hx => ?_⟩
    rcases hx with hx | rfl
    · exact hx
    · exact h
  · rw [List.mem_append, List.mem_singleton]

/-- What removal takes away is every occurrence. -/
theorem length_remove (xs : List α) (v : α) :
    (remove xs [v]).length + xs.count v = xs.length := by
  have hsplit := xs.length_eq_countP_add_countP (fun x => decide (x ∉ [v]))
  have hlen : (remove xs [v]).length = xs.countP (fun x => decide (x ∉ [v])) :=
    List.countP_eq_length_filter.symm
  have hcount : xs.count v = xs.countP (fun x => decide (¬ decide (x ∉ [v]) = true)) := by
    refine List.countP_congr (fun x _ => ?_)
    simp
  rw [hlen, hcount]
  exact hsplit.symm

/-- **Replacing an element keeps the number of elements** when it was there
once and the new one was not there, but for the old. -/
theorem length_replace {xs : List α} {v w : α} (hv : xs.count v = 1) (hw : w ∉ remove xs [v]) :
    (union (remove xs [v]) [w]).length = xs.length := by
  have hlen := length_remove xs v
  rw [union_of_notMem hw, List.length_append, List.length_singleton]
  omega

/-- The element was there once, if replacing it kept the number of elements and
it was there at all. -/
theorem count_of_length_replace {xs : List α} {v w : α} (hv : v ∈ xs)
    (h : (union (remove xs [v]) [w]).length = xs.length) :
    xs.count v = 1 ∧ w ∉ remove xs [v] := by
  have hlen := length_remove xs v
  have hpos := List.count_pos_iff.mpr hv
  by_cases hw : w ∈ remove xs [v]
  · rw [union_of_mem hw] at h
    omega
  · rw [union_of_notMem hw, List.length_append, List.length_singleton] at h
    exact ⟨by omega, hw⟩

/-! ## Through an injective encoding

The elements are stored encoded, and equality of encodings is equality of
elements, so both operations may be followed on the elements themselves. -/

section Encoding

variable {f : α → β} (hf : Function.Injective f)

include hf

theorem remove_map (xs vs : List α) :
    remove (xs.map f) (vs.map f) = (remove xs vs).map f := by
  rw [remove, remove, List.filter_map]
  refine congrArg (List.map f) (List.filter_congr (fun x _ => ?_))
  exact decide_eq_decide.mpr (not_congr (List.mem_map_of_injective hf))

theorem union_map (xs vs : List α) :
    union (xs.map f) (vs.map f) = (union xs vs).map f := by
  induction vs generalizing xs with
  | nil => rfl
  | cons v vs ih =>
    have hstep : union (xs.map f) [f v] = (union xs [v]).map f := by
      rw [union_singleton, union_singleton]
      by_cases h : v ∈ xs
      · rw [if_pos h, if_pos (List.mem_map_of_mem h)]
      · rw [if_neg h, if_neg (fun hc => h ((List.mem_map_of_injective hf).mp hc)),
          List.map_append]
        rfl
    calc union (xs.map f) (f v :: vs.map f)
        = union (union (xs.map f) [f v]) (vs.map f) := rfl
      _ = union ((union xs [v]).map f) (vs.map f) := by rw [hstep]
      _ = (union (union xs [v]) vs).map f := ih _

end Encoding

/-! ## An element by its position

A list that is followed element by element may be read as one element and the
rest, in whatever order. -/

section Position

omit [DecidableEq α]

variable {xs : List α} {i : ℕ} {x : α}

/-- The element at a position can be drawn to the front. -/
theorem perm_cons_eraseIdx (hi : xs[i]? = some x) : xs.Perm (x :: xs.eraseIdx i) := by
  obtain ⟨hlt, hx⟩ := List.getElem?_eq_some_iff.mp hi
  rw [← hx]
  exact (List.getElem_cons_eraseIdx_perm hlt).symm

/-- An element put in its place can be, too, over the same rest. -/
theorem set_perm_cons_eraseIdx (hi : xs[i]? = some x) (y : α) :
    (xs.set i y).Perm (y :: xs.eraseIdx i) := by
  obtain ⟨hlt, -⟩ := List.getElem?_eq_some_iff.mp hi
  exact List.set_perm_cons_eraseIdx hlt y

/-- What is read of some elements is what is read of one and of the others. -/
theorem filterMap_perm {γ : Type} (f : α → Option γ) (hi : xs[i]? = some x) :
    (xs.filterMap f).Perm ((f x).toList ++ (xs.eraseIdx i).filterMap f) := by
  refine ((perm_cons_eraseIdx hi).filterMap f).trans ?_
  rw [List.filterMap_cons]
  cases f x with
  | none => exact List.Perm.refl _
  | some y => exact List.Perm.refl _

/-- What is read of one more element comes last. -/
theorem filterMap_append_singleton {γ : Type} (f : α → Option γ) (xs : List α) (x : α) :
    (xs ++ [x]).filterMap f = xs.filterMap f ++ (f x).toList := by
  rw [List.filterMap_append, List.filterMap_cons, List.filterMap_nil]
  cases f x with
  | none => rfl
  | some y => rfl

/-- An element replaced by one that reads alike leaves what is read. -/
theorem map_set_of_eq {γ : Type} {y : α} (f : α → γ) (hi : xs[i]? = some x) (hf : f y = f x) :
    (xs.set i y).map f = xs.map f := by
  obtain ⟨hlt, hx⟩ := List.getElem?_eq_some_iff.mp hi
  have hltmap : i < (xs.map f).length := by rw [List.length_map]; exact hlt
  have hself : f x = (xs.map f)[i] := by rw [List.getElem_map, hx]
  rw [List.map_set, hf, hself, List.set_getElem_self]

end Position

/-! ## Reading an array key by key -/

/-- The elements with a given key, in order. -/
def entries (key : α → κ) (xs : List α) (k : κ) : List α :=
  xs.filter (fun x => key x = k)

section Entries

variable (key : α → κ)

omit [DecidableEq α] in
theorem mem_entries {xs : List α} {k : κ} {x : α} :
    x ∈ entries key xs k ↔ x ∈ xs ∧ key x = k := by
  rw [entries, List.mem_filter, decide_eq_true_eq]

omit [DecidableEq α] in
theorem entries_append (xs ys : List α) (k : κ) :
    entries key (xs ++ ys) k = entries key xs k ++ entries key ys k :=
  List.filter_append ..

omit [DecidableEq α] in
theorem entries_singleton (x : α) (k : κ) :
    entries key [x] k = if key x = k then [x] else [] := by
  by_cases h : key x = k
  · rw [if_pos h, entries, List.filter_cons_of_pos (by rw [decide_eq_true_eq]; exact h),
      List.filter_nil]
  · rw [if_neg h, entries, List.filter_cons_of_neg (by rw [decide_eq_true_eq]; exact h),
      List.filter_nil]

/-- Removal acts on the entries of each key separately. -/
theorem entries_remove (xs vs : List α) (k : κ) :
    entries key (remove xs vs) k = remove (entries key xs k) vs := by
  rw [entries, remove, List.filter_filter, remove, entries, List.filter_filter]
  exact List.filter_congr (fun x _ => Bool.and_comm ..)

/-- The entries of the other keys do not see a removal. -/
theorem entries_remove_of_ne {xs : List α} {v : α} {k : κ} (h : key v ≠ k) :
    entries key (remove xs [v]) k = entries key xs k := by
  rw [entries_remove]
  exact remove_of_notMem (fun hv => h ((mem_entries key).mp hv).2)

/-- The only entry of a key, removed, leaves none. -/
theorem entries_remove_self {xs : List α} {v : α}
    (h : entries key xs (key v) = [v]) :
    entries key (remove xs [v]) (key v) = [] := by
  rw [entries_remove, h]
  refine List.eq_nil_iff_forall_not_mem.mpr (fun x hx => ?_)
  exact (mem_remove.mp hx).2 (mem_remove.mp hx).1

omit [DecidableEq α] in
/-- A key without entries has none of its elements in the array. -/
theorem notMem_of_entries_eq_nil {xs : List α} {v : α}
    (h : entries key xs (key v) = []) : v ∉ xs := by
  intro hv
  have hmem : v ∈ entries key xs (key v) := (mem_entries key).mpr ⟨hv, rfl⟩
  rw [h] at hmem
  exact List.not_mem_nil hmem

/-- **The only entry of a key can be drawn to the front**: the array is that
element and what its removal leaves. -/
theorem perm_cons_remove {xs : List α} {v : α}
    (h : entries key xs (key v) = [v]) : xs.Perm (v :: remove xs [v]) := by
  -- an element equal to `v` has its key, and the only one that has is `v`
  have heq : xs.filter (fun x => decide (x = v)) = [v] := by
    have hsub : xs.filter (fun x => decide (x = v))
        = (entries key xs (key v)).filter (fun x => decide (x = v)) := by
      rw [entries, List.filter_filter]
      refine List.filter_congr (fun x _ => ?_)
      by_cases hx : x = v
      · subst hx
        rw [decide_eq_true rfl, decide_eq_true rfl]
        rfl
      · rw [decide_eq_false hx]
        rfl
    rw [hsub, h, List.filter_cons_of_pos (by rw [decide_eq_true_eq]), List.filter_nil]
  have hne : xs.filter (fun x => !decide (x = v)) = remove xs [v] := by
    refine List.filter_congr (fun x _ => ?_)
    rw [← decide_not]
    exact decide_eq_decide.mpr (not_congr List.mem_singleton.symm)
  have hsplit := (List.filter_append_perm (fun x => decide (x = v)) xs).symm
  rw [heq, hne] at hsplit
  exact hsplit

/-- Insertion under a key without entries makes the new element its only
entry, and leaves the other keys as they were. -/
theorem entries_union_of_nil {xs : List α} {v : α}
    (h : entries key xs (key v) = []) (k : κ) :
    entries key (union xs [v]) k
      = if key v = k then [v] else entries key xs k := by
  rw [union_of_notMem (notMem_of_entries_eq_nil key h), entries_append,
    entries_singleton]
  by_cases hk : key v = k
  · subst hk
    rw [if_pos rfl, if_pos rfl, h, List.nil_append]
  · rw [if_neg hk, if_neg hk, List.append_nil]

/-- **Replacing the only entry of a key** by another with the same key:
removal of the old element and insertion of the new one change that key's
entry and no other. -/
theorem entries_replace {xs : List α} {v w : α} (hvw : key w = key v)
    (h : entries key xs (key v) = [v]) (k : κ) :
    entries key (union (remove xs [v]) [w]) k
      = if key v = k then [w] else entries key xs k := by
  have hnil : entries key (remove xs [v]) (key w) = [] := by
    rw [hvw]
    exact entries_remove_self key h
  rw [entries_union_of_nil key hnil, hvw]
  by_cases hk : key v = k
  · rw [if_pos hk, if_pos hk]
  · rw [if_neg hk, if_neg hk, entries_remove_of_ne key hk]

omit [DecidableEq α] in
/-- With pairwise distinct keys each element is the only entry of its
key. -/
theorem entries_of_nodup {xs : List α} (h : (xs.map key).Nodup) {x : α}
    (hx : x ∈ xs) : entries key xs (key x) = [x] := by
  induction xs with
  | nil => exact absurd hx (List.not_mem_nil)
  | cons y ys ih =>
    obtain ⟨hy, hys⟩ := List.nodup_cons.mp h
    rcases List.mem_cons.mp hx with rfl | hx
    · have hrest : entries key ys (key x) = [] :=
        List.filter_eq_nil_iff.mpr (fun z hz hc => hy
          (List.mem_map.mpr ⟨z, hz, of_decide_eq_true hc⟩))
      rw [entries, List.filter_cons_of_pos (by rw [decide_eq_true_eq])]
      exact congrArg (List.cons x) hrest
    · have hne : key y ≠ key x := fun hc =>
        hy (List.mem_map.mpr ⟨x, hx, hc.symm⟩)
      rw [entries, List.filter_cons_of_neg (by rw [decide_eq_true_eq]; exact hne)]
      exact ih hys hx

omit [DecidableEq α] in
/-- If each element is the only entry of its key, the keys are pairwise
distinct. -/
theorem nodup_of_entries {xs : List α}
    (h : ∀ x ∈ xs, entries key xs (key x) = [x]) : (xs.map key).Nodup := by
  induction xs with
  | nil => exact List.nodup_nil
  | cons y ys ih =>
    have hself := h y (List.mem_cons_self ..)
    rw [entries, List.filter_cons_of_pos (by rw [decide_eq_true_eq])] at hself
    have hrest : entries key ys (key y) = [] := (List.cons.inj hself).2
    have hne : ∀ x ∈ ys, key y ≠ key x := by
      intro x hx hk
      have hmem : x ∈ entries key ys (key y) := (mem_entries key).mpr ⟨hx, hk.symm⟩
      rw [hrest] at hmem
      exact List.not_mem_nil hmem
    refine List.nodup_cons.mpr ⟨fun hy => ?_, ih (fun x hx => ?_)⟩
    · obtain ⟨x, hx, hk⟩ := List.mem_map.mp hy
      exact hne x hx hk.symm
    · have hx' := h x (List.mem_cons_of_mem y hx)
      rw [entries, List.filter_cons_of_neg
        (by rw [decide_eq_true_eq]; exact hne x hx)] at hx'
      exact hx'

end Entries

end SetArray
