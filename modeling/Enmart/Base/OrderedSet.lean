import Mathlib

/-!
# Sets kept in order

A set may be kept as a list of its elements in the order of their keys, no two of
them with one key. A map is such a set: its elements are its entries, and the key
of an entry is its name. An element that is put in the set goes to its place in the
order, and takes the place of the element with its key.

The order makes the list the only one with its elements (`Ordered.ext`), and says
when a list that has been cut short is the list of some of its elements: when the
others come last (`Ordered.take_eq_iff`).
-/

namespace OrderedSet

variable {α κ : Type}

section Order

variable (lt : κ → κ → Prop) (key : α → κ)

/-- The elements are in the order of their keys, one a key. -/
def Ordered (l : List α) : Prop := l.Pairwise (fun a b => lt (key a) (key b))

variable {lt key} [IsStrictTotalOrder κ lt]

namespace Ordered

/-- **A set in order is determined by its elements.** -/
theorem ext {l m : List α} (hl : Ordered lt key l) (hm : Ordered lt key m)
    (h : ∀ a, a ∈ l ↔ a ∈ m) : l = m := by
  have : Std.Irrefl (fun a b => lt (key a) (key b)) := ⟨fun a => irrefl_of lt (key a)⟩
  have : Std.Antisymm (fun a b => lt (key a) (key b)) :=
    ⟨fun a b hab hba => absurd hba (asymm_of lt hab)⟩
  exact List.Pairwise.eq_of_mem_iff hl hm h

/-- No element is in the set twice. -/
theorem nodup {l : List α} (hl : Ordered lt key l) : l.Nodup := by
  refine List.Pairwise.imp (fun {a b} h hab => ?_) hl
  rw [hab] at h
  exact irrefl_of lt _ h

/-- **A list cut short is the list of the elements that come first.** A set in
order, cut to as many elements as some of it are, is these exactly when the others
come after each of them. -/
theorem take_eq_iff {l m : List α} (hl : Ordered lt key l) (hm : Ordered lt key m)
    (hsub : ∀ a ∈ m, a ∈ l) :
    l.take m.length = m ↔ ∀ a ∈ l, a ∉ m → ∀ b ∈ m, lt (key b) (key a) := by
  constructor
  · intro h a ha hnot b hb
    rw [← List.take_append_drop m.length l, h] at ha hl
    have hdrop := (List.mem_append.mp ha).resolve_left hnot
    exact (List.pairwise_append.mp hl).2.2 b hb a hdrop
  · intro h
    induction l generalizing m with
    | nil => rw [List.eq_nil_iff_forall_not_mem.mpr (fun a ha => List.not_mem_nil (hsub a ha)),
        List.take_nil]
    | cons c l ih =>
      cases m with
      | nil => rfl
      | cons d m =>
        obtain ⟨hc, hl'⟩ := List.pairwise_cons.mp hl
        obtain ⟨hd, hm'⟩ := List.pairwise_cons.mp hm
        -- the first element is the first of those that are kept
        have hcd : c = d := by
          rcases List.mem_cons.mp (hsub d (List.mem_cons_self ..)) with rfl | hdl
          · rfl
          · have hlt := hc d hdl
            by_cases hcm : c ∈ d :: m
            · rcases List.mem_cons.mp hcm with rfl | hcm
              · rfl
              · exact absurd (hd c hcm) (asymm_of lt hlt)
            · exact absurd (h c (List.mem_cons_self ..) hcm d (List.mem_cons_self ..))
                (asymm_of lt hlt)
        subst hcd
        have hnot : ∀ a ∈ l, a ≠ c := fun a ha hac => irrefl_of lt (key c) (hac ▸ hc a ha)
        rw [List.length_cons, List.take_succ_cons, ih hl' hm' (fun a ha => ?_) (fun a ha ham b hb =>
          h a (List.mem_cons_of_mem c ha)
            (fun hac => ham ((List.mem_cons.mp hac).resolve_left (hnot a ha)))
            b (List.mem_cons_of_mem c hb))]
        exact (List.mem_cons.mp (hsub a (List.mem_cons_of_mem c ha))).resolve_left
          (fun hac => irrefl_of lt (key c) (hac ▸ hd a ha))

end Ordered

end Order

variable (lt : κ → κ → Prop) [DecidableRel lt] [DecidableEq κ] (key : α → κ)

/-- **The set with an element put in it**, in place of the one with its key. -/
def insert (a : α) : List α → List α
  | [] => [a]
  | b :: l =>
    if key a = key b then a :: l
    else if lt (key a) (key b) then a :: b :: l
    else b :: insert a l

variable {lt key}

/-- What is in the set after an insertion is the element inserted, or was in it. -/
theorem mem_insert_imp {a b : α} {l : List α} (h : b ∈ insert lt key a l) : b = a ∨ b ∈ l := by
  induction l with
  | nil => exact Or.inl (List.mem_singleton.mp h)
  | cons c l ih =>
    rw [insert] at h
    split at h
    · exact (List.mem_cons.mp h).imp_right (List.mem_cons_of_mem c)
    · split at h
      · exact List.mem_cons.mp h
      · rcases List.mem_cons.mp h with rfl | h
        · exact Or.inr (List.mem_cons_self ..)
        · exact (ih h).imp_right (List.mem_cons_of_mem c)

/-- The element put in the set is in it. -/
theorem mem_insert_self (a : α) (l : List α) : a ∈ insert lt key a l := by
  induction l with
  | nil => exact List.mem_singleton.mpr rfl
  | cons c l ih =>
    rw [insert]
    split
    · exact List.mem_cons_self ..
    · split
      · exact List.mem_cons_self ..
      · exact List.mem_cons_of_mem c ih

/-- The elements with other keys stay in it. -/
theorem mem_insert_of_ne {a b : α} {l : List α} (hb : b ∈ l) (hkey : key b ≠ key a) :
    b ∈ insert lt key a l := by
  induction l with
  | nil => exact absurd hb List.not_mem_nil
  | cons c l ih =>
    rw [insert]
    split
    · next h =>
      rcases List.mem_cons.mp hb with rfl | hb
      · exact absurd h.symm hkey
      · exact List.mem_cons_of_mem a hb
    · split
      · exact List.mem_cons_of_mem a hb
      · rcases List.mem_cons.mp hb with rfl | hb
        · exact List.mem_cons_self ..
        · exact List.mem_cons_of_mem c (ih hb)

/-- **An insertion keeps the order.** -/
theorem Ordered.insert [IsStrictTotalOrder κ lt] {l : List α} (hl : Ordered lt key l) (a : α) :
    Ordered lt key (insert lt key a l) := by
  induction l with
  | nil => exact List.pairwise_singleton _ _
  | cons c l ih =>
    obtain ⟨hc, hl'⟩ := List.pairwise_cons.mp hl
    rw [OrderedSet.insert]
    split
    · next h => exact List.pairwise_cons.mpr ⟨fun b hb => h ▸ hc b hb, hl'⟩
    · next hne =>
      split
      · next hlt =>
        refine List.pairwise_cons.mpr ⟨fun b hb => ?_, hl⟩
        rcases List.mem_cons.mp hb with rfl | hb
        · exact hlt
        · exact trans_of lt hlt (hc b hb)
      · next hlt =>
        refine List.pairwise_cons.mpr ⟨fun b hb => ?_, ih hl'⟩
        rcases mem_insert_imp hb with rfl | hb
        · exact ((trichotomous_of lt (key b) (key c)).resolve_left hlt).resolve_left hne
        · exact hc b hb

end OrderedSet
