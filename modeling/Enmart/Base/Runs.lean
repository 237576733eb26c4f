import Mathlib

/-!
# Runs of a partial step function

A system is given by a state type `σ`, a type `α` of actions and a partial
step `step : σ → α → Option σ`: an action that is not enabled in a state
has no successor there. A run is a list of actions taken one after the
other, and it exists when each of them is enabled where it is taken.

Two readings of a run are used. `Runs.Along P` says that `P` holds in every
state the run goes through, and `Runs.Meets C` that every step it takes
satisfies `C`, a condition on the action and the state *before* it. The
rules of this module connect the two: an invariant kept by the steps that
meet `C` holds along the runs that meet `C` (`Runs.along_of_meets`), and
where a step that does not meet `C` visibly breaks `P` the two readings say
the same of every run (`Runs.along_iff_meets`), or of every run of those that
meet a further condition `D` (`Runs.along_iff_meets_of_meets`). These last
rules are what turns "the law holds when the steps behave" into "the law
holds exactly when they do".

What makes a step go wrong is often not to be seen in the state it is taken
in, but in what happened before. `Runs.MeetsAfter C` is the reading of a run
for such conditions: `C` is given the steps already taken, and the exactness
rule for it (`Runs.along_iff_meetsAfter`) carries an invariant of the state
together with those steps.
-/

namespace Runs

variable {σ α : Type} (step : σ → α → Option σ)

/-- The state a list of actions leads to, if each is enabled in its turn. -/
def run : σ → List α → Option σ
  | s, [] => some s
  | s, a :: as => (step s a).bind (fun s' => run s' as)

/-- A run of at least one action takes its first step and runs on. -/
theorem run_cons_eq_some {s t : σ} {a : α} {as : List α} :
    run step s (a :: as) = some t
      ↔ ∃ s', step s a = some s' ∧ run step s' as = some t := by
  rw [run, Option.bind_eq_some_iff]

/-- `P` holds in every state the run goes through, the first included. -/
def Along (P : σ → Prop) : σ → List α → Prop
  | s, [] => P s
  | s, a :: as => P s ∧ ∀ s', step s a = some s' → Along P s' as

/-- Every step the run takes meets `C`, read in the state before it. -/
def Meets (C : σ → α → Prop) : σ → List α → Prop
  | _, [] => True
  | s, a :: as => ∀ s', step s a = some s' → C s a ∧ Meets C s' as

/-- Every step the run takes meets `C`, read after the steps taken so far,
each with the state it was taken in, and in the state before it. -/
def MeetsAfter (C : List (σ × α) → σ → α → Prop) :
    List (σ × α) → σ → List α → Prop
  | _, _, [] => True
  | past, s, a :: as => ∀ s', step s a = some s' →
      C past s a ∧ MeetsAfter C (past ++ [(s, a)]) s' as

variable {step}

/-- Whether a run meets a decidable condition is decided by running it. -/
instance decidableMeets {C : σ → α → Prop} [∀ s a, Decidable (C s a)] :
    (s : σ) → (as : List α) → Decidable (Meets step C s as)
  | _, [] => isTrue trivial
  | s, a :: as =>
    match h : step s a with
    | none => isTrue (fun _ hs' => nomatch h.symm.trans hs')
    | some s' =>
      have := decidableMeets (C := C) s' as
      decidable_of_iff (C s a ∧ Meets step C s' as)
        ⟨fun hC _ ht => Option.some.inj (h.symm.trans ht) ▸ hC, fun hm => hm s' h⟩

/-- The first state of a run is one of its states. -/
theorem Along.head {P : σ → Prop} {s : σ} {as : List α}
    (h : Along step P s as) : P s := by
  cases as with
  | nil => exact h
  | cons a as => exact h.1

/-- What every state of a run implies holds along it too. -/
theorem Along.imp {P Q : σ → Prop} (hPQ : ∀ s, P s → Q s) {s : σ} {as : List α}
    (h : Along step P s as) : Along step Q s as := by
  induction as generalizing s with
  | nil => exact hPQ s h
  | cons a as ih => exact ⟨hPQ s h.1, fun s' hs => ih (h.2 s' hs)⟩

/-- **`Along` reads the reached states**: it holds exactly when `P` holds
in every state that some first part of the run leads to. -/
theorem along_iff_reached {P : σ → Prop} {s : σ} {as : List α} :
    Along step P s as
      ↔ ∀ bs, bs <+: as → ∀ t, run step s bs = some t → P t := by
  induction as generalizing s with
  | nil =>
    constructor
    · intro h bs hbs t ht
      rw [List.prefix_nil.mp hbs] at ht
      obtain rfl := Option.some.inj ht
      exact h
    · intro h
      exact h [] (List.prefix_refl []) s rfl
  | cons a as ih =>
    constructor
    · intro h bs hbs t ht
      cases bs with
      | nil =>
        obtain rfl := Option.some.inj ht
        exact h.1
      | cons b bs =>
        obtain ⟨rfl, hbs'⟩ := List.cons_prefix_cons.mp hbs
        obtain ⟨s', hs, ht'⟩ := (run_cons_eq_some step).mp ht
        exact ih.mp (h.2 s' hs) bs hbs' t ht'
    · intro h
      refine ⟨h [] (List.nil_prefix) s rfl, fun s' hs => ih.mpr ?_⟩
      intro bs hbs t ht
      exact h (a :: bs) (List.cons_prefix_cons.mpr ⟨rfl, hbs⟩) t
        ((run_cons_eq_some step).mpr ⟨s', hs, ht⟩)

/-- The last state of a run is one of its states. -/
theorem Along.last {P : σ → Prop} {s t : σ} {as : List α}
    (h : Along step P s as) (hr : run step s as = some t) : P t :=
  along_iff_reached.mp h as (List.prefix_refl as) t hr

/-- **The guarded invariant rule**: what the steps meeting `C` keep holds
along every run all of whose steps meet it. -/
theorem along_of_meets {I : σ → Prop} {C : σ → α → Prop}
    (hstep : ∀ s a s', I s → C s a → step s a = some s' → I s')
    {s : σ} {as : List α} (hs : I s) (hC : Meets step C s as) :
    Along step I s as := by
  induction as generalizing s with
  | nil => exact hs
  | cons a as ih =>
    refine ⟨hs, fun s' h => ?_⟩
    obtain ⟨hCa, hC'⟩ := hC s' h
    exact ih (hstep s a s' hs hCa h) hC'

/-- **The exactness rule, for the runs that meet `D`.** Where the steps that
meet `D` and `C` keep an invariant that implies `P`, and those that meet `D`
but not `C` lead from the invariant to a state without `P`, the law holds
along a run that meets `D` exactly when all its steps meet `C`. -/
theorem along_iff_meets_of_meets {I P : σ → Prop} {C D : σ → α → Prop}
    (hIP : ∀ s, I s → P s)
    (hstep : ∀ s a s', I s → D s a → C s a → step s a = some s' → I s')
    (hbreak : ∀ s a s', I s → D s a → ¬ C s a → step s a = some s' → ¬ P s')
    {s : σ} {as : List α} (hs : I s) (hD : Meets step D s as) :
    Along step P s as ↔ Meets step C s as := by
  induction as generalizing s with
  | nil => exact ⟨fun _ => trivial, fun _ => hIP s hs⟩
  | cons a as ih =>
    constructor
    · intro h s' hs'
      obtain ⟨hDa, hD'⟩ := hD s' hs'
      -- a step that does not meet `C` would show in the state it leads to
      have hC : C s a := by
        by_contra hc
        exact hbreak s a s' hs hDa hc hs' (h.2 s' hs').head
      exact ⟨hC, (ih (hstep s a s' hs hDa hC hs') hD').mp (h.2 s' hs')⟩
    · intro h
      refine ⟨hIP s hs, fun s' hs' => ?_⟩
      obtain ⟨hDa, hD'⟩ := hD s' hs'
      obtain ⟨hCa, hC'⟩ := h s' hs'
      exact (ih (hstep s a s' hs hDa hCa hs') hD').mpr hC'

/-- A condition on the actions alone is met by every run of such actions. -/
theorem meets_of_forall {C : α → Prop} (s : σ) {as : List α} (h : ∀ a ∈ as, C a) :
    Meets step (fun _ a => C a) s as := by
  induction as generalizing s with
  | nil => trivial
  | cons a as ih =>
    exact fun s' _ => ⟨h a (List.mem_cons_self ..),
      ih s' (fun b hb => h b (List.mem_cons_of_mem a hb))⟩

/-- A condition that always holds is met by every run. -/
theorem meets_true (s : σ) (as : List α) : Meets step (fun _ _ => True) s as :=
  meets_of_forall s (fun _ _ => trivial)

/-- **The exactness rule.** Where the steps meeting `C` keep an invariant
that implies `P`, and every other step leads from the invariant to a state
without `P`, the law holds along a run exactly when all its steps meet
`C`. -/
theorem along_iff_meets {I P : σ → Prop} {C : σ → α → Prop}
    (hIP : ∀ s, I s → P s)
    (hstep : ∀ s a s', I s → C s a → step s a = some s' → I s')
    (hbreak : ∀ s a s', I s → ¬ C s a → step s a = some s' → ¬ P s')
    {s : σ} {as : List α} (hs : I s) :
    Along step P s as ↔ Meets step C s as :=
  along_iff_meets_of_meets hIP (fun s a s' hs _ => hstep s a s' hs)
    (fun s a s' hs _ => hbreak s a s' hs) hs (meets_true s as)

/-- **The exactness rule, for conditions on what went before.** Where the
steps meeting `C` keep an invariant of the steps taken and the state reached,
the invariant implies `P`, and every other step leads from it to a state
without `P`, the law holds along a run exactly when all its steps meet
`C`. -/
theorem along_iff_meetsAfter {I : List (σ × α) → σ → Prop} {P : σ → Prop}
    {C : List (σ × α) → σ → α → Prop} (hIP : ∀ past s, I past s → P s)
    (hstep : ∀ past s a s', I past s → C past s a → step s a = some s' →
      I (past ++ [(s, a)]) s')
    (hbreak : ∀ past s a s', I past s → ¬ C past s a → step s a = some s' → ¬ P s')
    {past : List (σ × α)} {s : σ} {as : List α} (hs : I past s) :
    Along step P s as ↔ MeetsAfter step C past s as := by
  induction as generalizing past s with
  | nil => exact ⟨fun _ => trivial, fun _ => hIP past s hs⟩
  | cons a as ih =>
    constructor
    · intro h s' hs'
      -- a step that does not meet `C` would show in the state it leads to
      have hC : C past s a := by
        by_contra hc
        exact hbreak past s a s' hs hc hs' (h.2 s' hs').head
      exact ⟨hC, (ih (hstep past s a s' hs hC hs')).mp (h.2 s' hs')⟩
    · intro h
      refine ⟨hIP past s hs, fun s' hs' => ?_⟩
      obtain ⟨hCa, hC'⟩ := h s' hs'
      exact (ih (hstep past s a s' hs hCa hs')).mpr hC'

/-! ## A system seen through an encoding

Where every state of one system encodes a state of another and their steps
correspond, the two have the same runs, and a reading of the runs may be
taken on either side. -/

section Encoding

variable {τ : Type} {step' : τ → α → Option τ} {f : σ → τ}

/-- **Runs correspond** through an encoding whose steps do. -/
theorem run_map (hsim : ∀ s a, step' (f s) a = (step s a).map f) (s : σ)
    (as : List α) : run step' (f s) as = (run step s as).map f := by
  induction as generalizing s with
  | nil => rfl
  | cons a as ih =>
    rw [run, run, hsim, Option.bind_map, Option.map_bind]
    exact congrArg _ (funext (fun s' => ih s'))

/-- **A law holds along a run of the image** exactly when it holds of the images
along the run. -/
theorem along_map (hsim : ∀ s a, step' (f s) a = (step s a).map f)
    {P : τ → Prop} {s : σ} {as : List α} :
    Along step' P (f s) as ↔ Along step (fun s => P (f s)) s as := by
  induction as generalizing s with
  | nil => exact Iff.rfl
  | cons a as ih =>
    refine and_congr_right (fun _ => ?_)
    rw [hsim]
    constructor
    · intro h s' hs'
      exact ih.mp (h (f s') (by rw [hs']; rfl))
    · intro h t ht
      obtain ⟨s', hs', rfl⟩ := Option.map_eq_some_iff.mp ht
      exact ih.mpr (h s' hs')

/-- **Conditions on steps correspond.** -/
theorem meets_map (hsim : ∀ s a, step' (f s) a = (step s a).map f)
    {C : τ → α → Prop} {s : σ} {as : List α} :
    Meets step' C (f s) as ↔ Meets step (fun s a => C (f s) a) s as := by
  induction as generalizing s with
  | nil => exact Iff.rfl
  | cons a as ih =>
    show (∀ t, step' (f s) a = some t → _) ↔ ∀ s', step s a = some s' → _
    rw [hsim]
    constructor
    · intro h s' hs'
      obtain ⟨hC, hC'⟩ := h (f s') (by rw [hs']; rfl)
      exact ⟨hC, ih.mp hC'⟩
    · intro h t ht
      obtain ⟨s', hs', rfl⟩ := Option.map_eq_some_iff.mp ht
      exact ⟨(h s' hs').1, ih.mpr (h s' hs').2⟩

end Encoding

end Runs
