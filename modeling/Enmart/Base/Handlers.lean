import Enmart.Base.Runs

/-!
# Handlers that await requests

A handler of an event runs on a state it shares with the handlers of other
events. It takes synchronous steps, which change the state or raise an
exception, and it awaits requests; while it awaits one, others run. `Handler`
is what a handler does from one event on, with the data of the event known: a
list of steps that ends normally or with an exception.

`Handler.exec` is a handler run alone, its requests succeeding or failing; a
failed request ends it. `Handler.step` is any number of handlers started by
taps on one button and interleaved in any way, all requests succeeding: a
handler holds the state until its next request, and goes on when that has
landed.

A button that a tap makes inactive, and that no handler makes active again by
the time it awaits or ends, starts one handler at most (`Handler.once`).
-/

/-- **What a handler does**: `σ` is the state it shares, `ω` what it
requests. -/
inductive Handler (σ ω : Type) where
  /-- It ends. -/
  | done
  /-- It ends with an exception. -/
  | throw
  /-- It changes the state, or raises an exception there. -/
  | sync (f : σ → Option σ) (k : Handler σ ω)
  /-- It awaits a request. -/
  | await (w : ω) (k : Handler σ ω)

namespace Handler

variable {σ ω α : Type}

/-- The requests a handler makes, if nothing ends it before. -/
def requests : Handler σ ω → List ω
  | done => []
  | throw => []
  | sync _ k => k.requests
  | await w k => w :: k.requests

/-- What is left of a handler after each of its requests. -/
def continuations : Handler σ ω → List (Handler σ ω)
  | done => []
  | throw => []
  | sync _ k => k.continuations
  | await _ k => k :: k.continuations

/-! ## A handler alone -/

/-- What a handler has come to. -/
structure Outcome (σ ω : Type) where
  state : σ
  /-- The requests that succeeded. -/
  landed : List ω
  /-- Whether it ended without an exception. -/
  normal : Bool

/-- **A handler run to its end**: `ok i` says whether its `i`-th request
succeeds. -/
def exec : Handler σ ω → (ℕ → Bool) → σ → Outcome σ ω
  | done, _, s => ⟨s, [], true⟩
  | throw, _, s => ⟨s, [], false⟩
  | sync f k, ok, s =>
    match f s with
    | some s' => k.exec ok s'
    | none => ⟨s, [], false⟩
  | await w k, ok, s =>
    if ok 0 then
      { k.exec (fun i => ok (i + 1)) s with
        landed := w :: (k.exec (fun i => ok (i + 1)) s).landed }
    else ⟨s, [], false⟩

/-! ## Handlers interleaved -/

/-- **A handler up to its next request**: the state it leaves, and what is left
of it. -/
def segment : Handler σ ω → σ → σ × Handler σ ω
  | sync f k, s =>
    match f s with
    | some s' => k.segment s'
    | none => (s, throw)
  | h, s => (s, h)

/-- The state, the requests under way with what their handlers do after them,
and the requests that have landed. -/
structure Running (σ ω : Type) where
  state : σ
  pending : List (ω × Handler σ ω)
  landed : List ω

/-- A handler goes on until it awaits a request or ends. -/
def Running.resume (r : Running σ ω) (h : Handler σ ω) : Running σ ω :=
  match h.segment r.state with
  | (s, await w k) => { r with state := s, pending := r.pending ++ [(w, k)] }
  | (s, _) => { r with state := s }

/-- What happens next. -/
inductive Event (α : Type) where
  /-- The button is tapped. -/
  | tap (a : α)
  /-- A request lands, and its handler goes on. -/
  | land (i : ℕ)
  /-- The state is changed from outside. -/
  | leave
  deriving DecidableEq, Repr

/-- **One event**: a tap starts a handler where the button is active. -/
def step (button : α → Handler σ ω) (active : σ → Bool) (leave : σ → Option σ)
    (r : Running σ ω) : Event α → Option (Running σ ω)
  | .tap a => if active r.state then some (r.resume (button a)) else none
  | .land i => r.pending[i]?.map (fun p =>
      Running.resume { r with
        pending := r.pending.eraseIdx i
        landed := r.landed ++ [p.fst] } p.snd)
  | .leave => (leave r.state).map (fun s => { r with state := s })

/-- The state before anything has been tapped. -/
def Running.start (s : σ) : Running σ ω := ⟨s, [], []⟩

/-! ## A button that is tapped once -/

/-- What a handler awaits next is the first of its requests. -/
theorem segment_eq_await {h k : Handler σ ω} {s s' : σ} {w : ω}
    (hseg : h.segment s = (s', await w k)) :
    h.requests = w :: k.requests ∧ k ∈ h.continuations
      ∧ ∀ l ∈ k.continuations, l ∈ h.continuations := by
  induction h generalizing s with
  | done => exact absurd hseg (by simp [segment])
  | throw => exact absurd hseg (by simp [segment])
  | sync f h ih =>
    unfold segment at hseg
    split at hseg
    · exact ih hseg
    · exact absurd hseg (by simp)
  | await v h ih =>
    obtain ⟨-, hh⟩ := Prod.mk.inj hseg
    obtain ⟨rfl, rfl⟩ := await.inj hh
    exact ⟨rfl, List.mem_cons_self .., fun l hl => List.mem_cons_of_mem _ hl⟩

/-- **The handler that was started**, if one was: it has come so far, and the
button is inactive. -/
def StartedOnce (button : α → Handler σ ω) (active : σ → Bool) (r : Running σ ω) : Prop :=
  (r.pending = [] ∧ r.landed = []) ∨
    active r.state = false ∧ ∃ a,
      (r.pending = [] ∧ r.landed <+: (button a).requests) ∨
      ∃ w k, r.pending = [(w, k)] ∧ r.landed ++ w :: k.requests = (button a).requests
        ∧ k ∈ (button a).continuations
        ∧ ∀ l ∈ k.continuations, l ∈ (button a).continuations

section Once

variable {button : α → Handler σ ω} {active : σ → Bool} {leave : σ → Option σ}
  {r r' : Running σ ω}

/-- A handler that goes on, having come so far. -/
theorem StartedOnce.resume {h : Handler σ ω} {a : α} (hpending : r.pending = [])
    (hlanded : r.landed ++ h.requests = (button a).requests)
    (hcont : ∀ l ∈ h.continuations, l ∈ (button a).continuations)
    (hoff : active (h.segment r.state).fst = false) :
    StartedOnce button active (r.resume h) := by
  rcases hseg : h.segment r.state with ⟨s, h'⟩
  rw [hseg] at hoff
  unfold Running.resume
  rw [hseg]
  have hended : StartedOnce button active { r with state := s } :=
    Or.inr ⟨hoff, a, Or.inl ⟨hpending, ⟨h.requests, hlanded⟩⟩⟩
  cases h' with
  | done => exact hended
  | throw => exact hended
  | sync f k => exact hended
  | await w k =>
    obtain ⟨hrequests, hk, hsub⟩ := segment_eq_await hseg
    refine Or.inr ⟨hoff, a, Or.inr ⟨w, k, ?_, ?_, hcont k hk, fun l hl => hcont l (hsub l hl)⟩⟩
    · show r.pending ++ [(w, k)] = [(w, k)]
      rw [hpending, List.nil_append]
    · show r.landed ++ w :: k.requests = (button a).requests
      rw [← hrequests]
      exact hlanded

/-- **What a tap does**: it runs the handler, if the button is active. -/
theorem step_tap {a : α} :
    step button active leave r (.tap a) = some r'
      ↔ active r.state = true ∧ r.resume (button a) = r' := by
  show (if active r.state = true then some (r.resume (button a)) else none) = some r' ↔ _
  rw [Option.ite_none_right_eq_some, Option.some.injEq]

/-- **One event keeps the button from starting a second handler**, if a tap makes
it inactive and no handler, and nothing outside, makes it active again. -/
theorem StartedOnce.step (h : StartedOnce button active r)
    (htap : ∀ a s, active s = true → active ((button a).segment s).fst = false)
    (hcont : ∀ a, ∀ k ∈ (button a).continuations, ∀ s, active s = false →
      active (k.segment s).fst = false)
    (hleave : ∀ s s', active s = false → leave s = some s' → active s' = false)
    {e : Event α} (hstep : Handler.step button active leave r e = some r') :
    StartedOnce button active r' := by
  cases e with
  | tap a =>
    obtain ⟨hactive, rfl⟩ := step_tap.mp hstep
    rcases h with ⟨hpending, hlanded⟩ | ⟨hoff, -⟩
    · refine StartedOnce.resume hpending ?_ (fun l hl => hl) (htap a _ hactive)
      rw [hlanded, List.nil_append]
    · rw [hoff] at hactive
      exact absurd hactive Bool.false_ne_true
  | land i =>
    obtain ⟨⟨w, k⟩, hi, rfl⟩ := Option.map_eq_some_iff.mp hstep
    rcases h with ⟨hpending, -⟩ | ⟨hoff, a, ⟨hpending, -⟩ | ⟨w', k', hpending, hreq, hk, hsub⟩⟩
    · rw [hpending] at hi
      exact absurd hi (by simp)
    · rw [hpending] at hi
      exact absurd hi (by simp)
    · rw [hpending] at hi
      obtain ⟨hlt, heq⟩ := List.getElem?_eq_some_iff.mp hi
      obtain rfl : i = 0 := Nat.lt_one_iff.mp hlt
      obtain ⟨rfl, rfl⟩ := Prod.mk.inj heq
      refine StartedOnce.resume (by rw [hpending]; rfl) ?_ hsub (hcont a k' hk _ hoff)
      show (r.landed ++ [w']) ++ k'.requests = (button a).requests
      rw [List.append_assoc]
      exact hreq
  | leave =>
    obtain ⟨s, hs, rfl⟩ := Option.map_eq_some_iff.mp hstep
    rcases h with hfresh | ⟨hoff, hrest⟩
    · exact Or.inl hfresh
    · exact Or.inr ⟨hleave _ s hoff hs, hrest⟩

/-- What has landed is requested by one handler. -/
theorem StartedOnce.landed (h : StartedOnce button active r) :
    r.landed = [] ∨ ∃ a, r.landed <+: (button a).requests := by
  rcases h with ⟨-, hlanded⟩ | ⟨-, a, ⟨-, hfirst⟩ | ⟨w, k, -, hreq, -⟩⟩
  · exact Or.inl hlanded
  · exact Or.inr ⟨a, hfirst⟩
  · exact Or.inr ⟨a, ⟨w :: k.requests, hreq⟩⟩

/-- **The one-handler rule**: in any run from a state in which nothing has been
tapped, all that lands is requested by one handler. -/
theorem once (htap : ∀ a s, active s = true → active ((button a).segment s).fst = false)
    (hcont : ∀ a, ∀ k ∈ (button a).continuations, ∀ s, active s = false →
      active (k.segment s).fst = false)
    (hleave : ∀ s s', active s = false → leave s = some s' → active s' = false)
    (s : σ) (es : List (Event α)) :
    Runs.Along (Handler.step button active leave)
      (fun r => r.landed = [] ∨ ∃ a, r.landed <+: (button a).requests) (Running.start s) es :=
  (Runs.along_of_meets (I := StartedOnce button active) (C := fun _ _ => True)
    (fun _ _ _ hI _ hstep => hI.step htap hcont hleave hstep) (Or.inl ⟨rfl, rfl⟩)
    (Runs.meets_true _ es)).imp (fun _ hI => hI.landed)

end Once

end Handler
