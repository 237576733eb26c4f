import Enmart.Base.Runs
import Enmart.Cart.Checkout
import Enmart.Firestore.Write
import Enmart.Models.Ndp
import Enmart.Models.Product

/-!
# Creating records

Orders, requests and products are created alike: the client reads its clock,
makes the millisecond the key of the new document, and puts the document
there whatever is under that key – at once, or once an image has been
uploaded. Nothing makes the millisecond the client's own.

`recordStep` is any number of clients doing so, the writes landing in any
order. A record that is created stays as it is until something meant to
change it does, as long as no other creation of its kind in the same
millisecond lands over it; one that does replaces it, and
`creations_stay_iff` says that nothing else can.
-/

open Firestore

/-- The collections records are created in. -/
inductive RecordKind where
  | orders
  | ndp
  | products
  deriving DecidableEq, Repr

/-- **The product the New Product dialog makes** of what has been typed, and
of the number its price has been read as. -/
def newItem (now : DateTime) (code material quantity : String) (price : Number) :
    ProductModel where
  id := toString now.millisecondsSinceEpoch
  code := code
  material := material
  quantity := (intTryParse quantity).getD 0
  price := price
  specialUsers := []

/-- **A creation**: what is created, with the clock as it was read. -/
inductive Creation where
  /-- `cartToOrder` makes an order. -/
  | order (uid : String) (dt : DateTime) (products : List OrderModel)
  /-- `proceedUpload` makes a request. -/
  | request (m : NDPModel)
  /-- `NewItemDialog` makes a product, new or a duplicate. -/
  | product (now : DateTime) (code material quantity : String) (price : Number)
  deriving DecidableEq, Repr

namespace Creation

/-- The collection of what is created. -/
def kind : Creation → RecordKind
  | order .. => .orders
  | request _ => .ndp
  | product .. => .products

/-- The clock as it was read. -/
def readAt : Creation → DateTime
  | order _ dt _ => dt
  | request m => m.dateTime
  | product now .. => now

/-- The key of the document. -/
def key (c : Creation) : String := toString c.readAt.millisecondsSinceEpoch

/-- The document. -/
def doc : Creation → Fields
  | order uid dt products => (cartToOrder uid dt products).toMap
  | request m => m.toMap
  | product now code material quantity price =>
    (newItem now code material quantity price).toMap

/-- Whether the app goes ahead: the cart has a line, or no entry is empty. -/
def offered : Creation → Bool
  | order _ _ products => products ≠ []
  | request m => ∀ e ∈ m.entries, e ≠ ""
  | product _ code material quantity _ => code ≠ "" ∧ material ≠ "" ∧ quantity ≠ ""

/-- The fields are in the order of their names. -/
theorem doc_sorted (c : Creation) : c.doc.Sorted := by
  cases c with
  | order uid dt products => exact OrderCartModel.toMap_sorted _
  | request m => exact NDPModel.toMap_sorted m
  | product now code material quantity price => exact ProductModel.toMap_sorted _

/-- **Creations have one key exactly when the clock showed one
millisecond.** -/
theorem key_eq_iff (c c' : Creation) :
    c.key = c'.key
      ↔ c.readAt.millisecondsSinceEpoch = c'.readAt.millisecondsSinceEpoch := by
  unfold key
  rw [Int.toString_eq_repr, Int.toString_eq_repr]
  exact Int.repr_inj

end Creation

/-! ## The clients together -/

/-- **The collections, and the creations under way.** -/
structure Records where
  docs : RecordKind → Collection
  /-- What each client's clock showed last, in microseconds. -/
  clock : ℕ → ℤ
  /-- The creations whose write has not landed. -/
  pending : List Creation
  /-- The creations whose write has landed, and whose record nothing has
  changed since that was meant to. -/
  created : List Creation

/-- What happens next. -/
inductive RecordAction where
  /-- A client reads its clock and begins a creation. -/
  | start (client : ℕ) (c : Creation)
  /-- The write of a creation lands. -/
  | land (i : ℕ)
  /-- The write of a creation fails, or is never made. -/
  | fail (i : ℕ)
  /-- A record is changed or deleted by an operation that is meant to. -/
  | change (kind : RecordKind) (key : String) (doc : Option Fields)

/-- **One step of the clients.** A clock never goes back. -/
def recordStep (s : Records) : RecordAction → Option Records
  | .start client c =>
    if c.offered = true ∧ s.clock client ≤ c.readAt.microsecondsSinceEpoch then
      some { s with
        clock := Function.update s.clock client c.readAt.microsecondsSinceEpoch
        pending := s.pending ++ [c] }
    else none
  | .land i =>
    match s.pending[i]? with
    | some c =>
      -- `set`, whatever is under the key
      some { s with
        docs := Function.update s.docs c.kind
          ((s.docs c.kind).set c.key (Fields.values c.doc))
        pending := s.pending.eraseIdx i
        created := c :: s.created }
    | none => none
  | .fail i =>
    match s.pending[i]? with
    | some _ => some { s with pending := s.pending.eraseIdx i }
    | none => none
  | .change kind key doc =>
    some { s with
      docs := Function.update s.docs kind (Function.update (s.docs kind) key doc)
      created := s.created.filter (fun c => ¬ (c.kind = kind ∧ c.key = key)) }

/-- **Every record created stays** as it was created. -/
def CreationsStay (s : Records) : Prop :=
  ∀ c ∈ s.created, s.docs c.kind c.key = some c.doc

/-- **The millisecond is not taken**: where the write of a creation lands, no
untouched record of its kind, with other content, was created in the
millisecond its clock showed. -/
def MillisecondFree (s : Records) : RecordAction → Prop
  | .land i => ∀ c ∈ s.pending[i]?, ∀ c' ∈ s.created, c'.kind = c.kind →
      c'.readAt.millisecondsSinceEpoch = c.readAt.millisecondsSinceEpoch → c'.doc = c.doc
  | _ => True

/-- Clients that have created nothing yet. -/
def Records.start (docs : RecordKind → Collection) (clock : ℕ → ℤ) : Records where
  docs := docs
  clock := clock
  pending := []
  created := []

section Land

variable {s s' : Records}

/-- A write that lands, lands under the key of its creation. -/
theorem docs_land (c : Creation) (kind : RecordKind) (key : String) :
    Function.update s.docs c.kind ((s.docs c.kind).set c.key (Fields.values c.doc)) kind key
      = if c.kind = kind ∧ c.key = key then some c.doc else s.docs kind key := by
  by_cases hkind : kind = c.kind
  · subst hkind
    rw [Function.update_self]
    by_cases hkey : key = c.key
    · subst hkey
      rw [if_pos ⟨rfl, rfl⟩, Collection.set_self, Fields.ofUpdate_values c.doc_sorted]
    · rw [if_neg (fun hc => hkey hc.2.symm), Collection.set_of_ne _ hkey]
  · rw [if_neg (fun hc => hkind hc.1.symm), Function.update_of_ne hkind]

/-- **A step that takes no taken millisecond keeps every record.** -/
theorem CreationsStay.step (h : CreationsStay s) {a : RecordAction}
    (hC : MillisecondFree s a) (hstep : recordStep s a = some s') : CreationsStay s' := by
  cases a with
  | start client c =>
    by_cases hguard : c.offered = true
        ∧ s.clock client ≤ c.readAt.microsecondsSinceEpoch
    · simp only [recordStep, if_pos hguard, Option.some.injEq] at hstep
      rw [← hstep]
      exact h
    · simp [recordStep, hguard] at hstep
  | land i =>
    rcases hi : s.pending[i]? with _ | c
    · simp [recordStep, hi] at hstep
    · simp only [recordStep, hi, Option.some.injEq] at hstep
      rw [← hstep]
      intro c' hc'
      show Function.update s.docs c.kind _ c'.kind c'.key = some c'.doc
      rw [docs_land]
      rcases List.mem_cons.mp hc' with rfl | hc'
      · exact if_pos ⟨rfl, rfl⟩
      · by_cases htaken : c.kind = c'.kind ∧ c.key = c'.key
        · -- the record written over has the content of the new one
          rw [if_pos htaken]
          exact congrArg some (hC c hi c' hc' htaken.1.symm
            ((Creation.key_eq_iff c c').mp htaken.2).symm).symm
        · rw [if_neg htaken]
          exact h c' hc'
  | fail i =>
    rcases hi : s.pending[i]? with _ | c
    · simp [recordStep, hi] at hstep
    · simp only [recordStep, hi, Option.some.injEq] at hstep
      rw [← hstep]
      exact h
  | change kind key doc =>
    obtain rfl := Option.some.inj hstep
    intro c hc
    obtain ⟨hmem, hother⟩ := List.mem_filter.mp hc
    have hne := of_decide_eq_true hother
    show Function.update s.docs kind _ c.kind c.key = some c.doc
    rw [← h c hmem]
    by_cases hkind : c.kind = kind
    · subst hkind
      rw [Function.update_self, Function.update_of_ne (fun hkey => hne ⟨rfl, hkey⟩)]
    · rw [Function.update_of_ne hkind]

/-- **A step that takes a taken millisecond destroys a record.** -/
theorem not_creationsStay {a : RecordAction} (hC : ¬ MillisecondFree s a)
    (hstep : recordStep s a = some s') : ¬ CreationsStay s' := by
  intro hlaw
  cases a with
  | start client c => exact hC trivial
  | land i =>
    refine hC (fun c hi c' hc' hkind hread => ?_)
    simp only [recordStep, Option.mem_def.mp hi, Option.some.injEq] at hstep
    subst hstep
    have hkey := (Creation.key_eq_iff c c').mpr hread.symm
    have hdoc : Function.update s.docs c.kind _ c'.kind c'.key = some c'.doc :=
      hlaw c' (List.mem_cons_of_mem c hc')
    rw [docs_land, if_pos ⟨hkind.symm, hkey⟩] at hdoc
    exact (Option.some.inj hdoc).symm
  | fail i => exact hC trivial
  | change kind key doc => exact hC trivial

end Land

/-- **When records stay.** In any run of creations by any number of clients,
their writes landing in any order or failing, and of changes that are meant,
every record created stays as it was created until such a change – exactly
when no write lands in a millisecond in which an untouched record of its
kind, with other content, was created. -/
theorem creations_stay_iff (docs : RecordKind → Collection) (clock : ℕ → ℤ)
    (as : List RecordAction) :
    Runs.Along recordStep CreationsStay (Records.start docs clock) as
      ↔ Runs.Meets recordStep MillisecondFree (Records.start docs clock) as :=
  Runs.along_iff_meets (fun _ h => h) (fun _ _ _ h hC hstep => h.step hC hstep)
    (fun _ _ _ _ hC hstep => not_creationsStay hC hstep)
    (fun _ hc => absurd hc List.not_mem_nil)

/-- **An order replaced by another**: two customers check out in one
millisecond. -/
theorem order_replaced :
    ¬ ∀ (docs : RecordKind → Collection) (clock : ℕ → ℤ) (as : List RecordAction),
      Runs.Along recordStep CreationsStay (Records.start docs clock) as := by
  intro h
  have hlaw := (h (fun _ _ => none) (fun _ => 0)
    [.start 0 (.order "u" ⟨5000⟩ [cartLine "1" 1]),
      .start 1 (.order "v" ⟨5999⟩ [cartLine "2" 1]), .land 0, .land 0]).last rfl
  have hdoc := hlaw (.order "u" ⟨5000⟩ [cartLine "1" 1])
    (List.mem_cons_of_mem _ (List.mem_cons_self ..))
  have hlost : some (Creation.doc (.order "v" ⟨5999⟩ [cartLine "2" 1]))
      = some (Creation.doc (.order "u" ⟨5000⟩ [cartLine "1" 1])) := hdoc
  exact absurd hlost (by decide)
