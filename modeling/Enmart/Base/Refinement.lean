import Enmart.Base.Runs

/-!
# One system seen as another

A system refines a simpler one when each of its steps is some of the other's.
The states correspond by a relation `R`, and `label` gives the steps of the
simpler system that a step stands for – none, where nothing the simpler system
speaks of has changed. `IsSimulation` asks this of the steps that meet a
condition `C`. What is asked of one step is then so of a run: the steps of all
its steps, its `trace`, are a run of the simpler system, and it ends in a
corresponding state (`IsSimulation.run`).

So what is so of every run of the simpler system may be said of the other's.
What it says of a quantity is the sum of what its steps say (`Runs.sum_run`).
-/

namespace Runs

variable {σ α τ β M : Type}

section Rules

variable {step : σ → α → Option σ}

/-- A run may be taken in two parts. -/
theorem run_append {s : σ} {as bs : List α} :
    run step s (as ++ bs) = (run step s as).bind (fun s' => run step s' bs) := by
  induction as generalizing s with
  | nil => rfl
  | cons a as ih =>
    rw [List.cons_append, run, run, Option.bind_assoc]
    exact congrArg _ (funext (fun s' => ih))

/-- What its steps meet, part by part. -/
theorem meets_append {C : σ → α → Prop} {s s' : σ} {as bs : List α}
    (hrun : run step s as = some s') :
    Meets step C s (as ++ bs) ↔ Meets step C s as ∧ Meets step C s' bs := by
  induction as generalizing s with
  | nil =>
    obtain rfl := Option.some.inj hrun
    exact (true_and _ ▸ Iff.rfl)
  | cons a as ih =>
    obtain ⟨s₁, hs₁, hrun'⟩ := (run_cons_eq_some step).mp hrun
    have hfirst (P : σ → Prop) : (∀ s', step s a = some s' → P s') ↔ P s₁ :=
      ⟨fun h => h s₁ hs₁, fun h _ hs' => Option.some.inj (hs₁.symm.trans hs') ▸ h⟩
    show (∀ s', step s a = some s' → _) ↔ (∀ s', step s a = some s' → _) ∧ _
    rw [hfirst, hfirst, and_assoc]
    exact and_congr_right (fun _ => ih hrun')

/-- **The rule of the sum**: where each step adds its own weight to a quantity,
a run adds the sum of the weights. -/
theorem sum_run [AddCommMonoid M] {μ : σ → M} {w : α → M}
    (h : ∀ s a s', step s a = some s' → μ s' = μ s + w a)
    {s s' : σ} {as : List α} (hrun : run step s as = some s') :
    μ s' = μ s + (as.map w).sum := by
  induction as generalizing s with
  | nil =>
    obtain rfl := Option.some.inj hrun
    rw [List.map_nil, List.sum_nil, add_zero]
  | cons a as ih =>
    obtain ⟨s₁, hs₁, hrun'⟩ := (run_cons_eq_some step).mp hrun
    rw [ih hrun', h s a s₁ hs₁, List.map_cons, List.sum_cons, add_assoc]

/-- A run of actions of one kind is a run of that kind. -/
theorem run_actions (g : β → α) (s : σ) (bs : List β) :
    run step s (bs.map g) = run (fun s b => step s (g b)) s bs := by
  induction bs generalizing s with
  | nil => rfl
  | cons b bs ih =>
    rw [List.map_cons, run, run]
    exact congrArg _ (funext (fun s' => ih s'))

/-- **A run seen through a map** of states and of actions that steps keep. -/
theorem run_image {f : σ → τ} {g : α → β} {step' : τ → β → Option τ}
    (h : ∀ s a s', step s a = some s' → step' (f s) (g a) = some (f s')) {s s' : σ} {as : List α}
    (hrun : run step s as = some s') : run step' (f s) (as.map g) = some (f s') := by
  induction as generalizing s with
  | nil =>
    obtain rfl := Option.some.inj hrun
    rfl
  | cons a as ih =>
    obtain ⟨s₁, hs₁, hrun'⟩ := (run_cons_eq_some step).mp hrun
    exact (run_cons_eq_some step').mpr ⟨f s₁, h s a s₁ hs₁, ih hrun'⟩

/-- A run of renamed actions meets a condition where each action meets it under its
new name. -/
theorem meets_actions {C : σ → α → Prop} (g : β → α) (s : σ) (bs : List β) :
    Meets step C s (bs.map g) ↔ Meets (fun s b => step s (g b)) (fun s b => C s (g b)) s bs := by
  induction bs generalizing s with
  | nil => exact Iff.rfl
  | cons b bs ih => exact forall₂_congr (fun s' _ => and_congr_right (fun _ => ih s'))

end Rules

variable (step : σ → α → Option σ) (step' : τ → β → Option τ)

/-- The steps of the simpler system that a run stands for. -/
def trace (label : σ → α → List β) : σ → List α → List β
  | _, [] => []
  | s, a :: as => label s a ++ (step s a).elim [] (fun s' => trace label s' as)

/-- **Each step that meets `C` is some steps of the simpler system**, from a
corresponding state to a corresponding state. -/
def IsSimulation (C : σ → α → Prop) (label : σ → α → List β) (R : σ → τ → Prop) : Prop :=
  ∀ s t a s', R s t → C s a → step s a = some s' →
    ∃ t', run step' t (label s a) = some t' ∧ R s' t'

variable {step step'}

/-- What a run stands for, a step of it stands for. -/
theorem exists_of_mem_trace {label : σ → α → List β} {s : σ} {as : List α} {b : β}
    (h : b ∈ trace step label s as) : ∃ s' a, b ∈ label s' a := by
  induction as generalizing s with
  | nil => exact absurd h List.not_mem_nil
  | cons a as ih =>
    rcases List.mem_append.mp h with h | h
    · exact ⟨s, a, h⟩
    · cases hs : step s a with
      | none =>
        rw [hs] at h
        exact absurd h List.not_mem_nil
      | some s' =>
        rw [hs] at h
        exact ih h

/-- **The rule of the count**: where each step of a kind weighs something, there
are at most as many of them in a run as it weighs. -/
theorem countP_le_sum_trace {label : σ → α → List β} {w : β → ℕ} {C : σ → α → Prop}
    {p : α → Bool}
    (h : ∀ s a s', C s a → step s a = some s' → p a = true → 1 ≤ ((label s a).map w).sum)
    {s s' : σ} {as : List α} (hC : Meets step C s as) (hrun : run step s as = some s') :
    as.countP p ≤ ((trace step label s as).map w).sum := by
  induction as generalizing s with
  | nil => exact Nat.zero_le _
  | cons a as ih =>
    obtain ⟨s₁, hs₁, hrun'⟩ := (run_cons_eq_some step).mp hrun
    obtain ⟨hCa, hCas⟩ := hC s₁ hs₁
    have hrest := ih hCas hrun'
    have hsum : ((trace step label s (a :: as)).map w).sum
        = ((label s a).map w).sum + ((trace step label s₁ as).map w).sum := by
      rw [trace, hs₁, List.map_append, List.sum_append]
      rfl
    rw [hsum, List.countP_cons]
    by_cases hp : p a = true
    · have hstep := h s a s₁ hCa hs₁ hp
      rw [if_pos hp]
      omega
    · rw [if_neg hp]
      omega

/-- **A run is a run of the simpler system**: its trace, which ends in a
corresponding state. -/
theorem IsSimulation.run {C : σ → α → Prop} {label : σ → α → List β} {R : σ → τ → Prop}
    (h : IsSimulation step step' C label R) {s s' : σ} {t : τ} {as : List α} (hR : R s t)
    (hC : Meets step C s as) (hrun : Runs.run step s as = some s') :
    ∃ t', Runs.run step' t (trace step label s as) = some t' ∧ R s' t' := by
  induction as generalizing s t with
  | nil =>
    obtain rfl := Option.some.inj hrun
    exact ⟨t, rfl, hR⟩
  | cons a as ih =>
    obtain ⟨s₁, hs₁, hrun'⟩ := (run_cons_eq_some step).mp hrun
    obtain ⟨hCa, hCas⟩ := hC s₁ hs₁
    obtain ⟨t₁, ht₁, hR₁⟩ := h s t a s₁ hR hCa hs₁
    obtain ⟨t', ht', hR'⟩ := ih hR₁ hCas hrun'
    refine ⟨t', ?_, hR'⟩
    rw [trace, hs₁, run_append, ht₁]
    exact ht'

end Runs
