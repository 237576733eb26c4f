import Mathlib

/-!
# The last write wins

A map that is written key by key holds, under each key, the value last written
there, or the one it held before. `LastWrite.last` is that value for a list of
writes, and `LastWrite.read_foldl` says that a system reads so whenever each of
its steps either writes one key of the map read from its state or leaves that
map alone – whatever else the step does, and whatever else the state holds.
-/

namespace LastWrite

variable {κ β : Type} [DecidableEq κ]

/-- The value last written under a key, if any is. -/
def last : List (κ × β) → κ → Option β
  | [], _ => none
  | w :: ws, k => (last ws k).or (if w.fst = k then some w.snd else none)

/-- **A first write** shows where nothing is written under its key later. -/
theorem getD_last_cons (w : κ × β) (ws : List (κ × β)) (k : κ) (m : κ → β) :
    (last (w :: ws) k).getD (m k) = (last ws k).getD (Function.update m w.fst w.snd k) := by
  rw [last]
  rcases last ws k with _ | v
  · by_cases h : w.fst = k
    · subst h
      rw [if_pos rfl, Function.update_self]
      rfl
    · rw [if_neg h, Function.update_of_ne (fun hc => h hc.symm)]
      rfl
  · rfl

/-- **The simulation rule.** Where every step, from a state with the invariant,
keeps it and writes at most one key of the map read from the state, the map
read after a run is the one of the last writes. -/
theorem read_foldl {σ α : Type} {step : σ → α → σ} {I : σ → Prop} {read : σ → κ → β}
    {write : α → Option (κ × β)} (hI : ∀ s a, I s → I (step s a))
    (hwrite : ∀ s a w, I s → write a = some w →
      read (step s a) = Function.update (read s) w.fst w.snd)
    (hother : ∀ s a, I s → write a = none → read (step s a) = read s)
    {s : σ} (hs : I s) (as : List α) (k : κ) :
    read (as.foldl step s) k = (last (as.filterMap write) k).getD (read s k) := by
  induction as generalizing s with
  | nil => rfl
  | cons a as ih =>
    rw [List.foldl_cons, ih (hI s a hs)]
    rcases hw : write a with _ | w
    · rw [List.filterMap_cons_none hw, hother s a hs hw]
    · rw [List.filterMap_cons_some hw, getD_last_cons, hwrite s a w hs hw]

end LastWrite
