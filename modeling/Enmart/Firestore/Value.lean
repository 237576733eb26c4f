import Mathlib

/-!
# Values and documents of the store

A document is a list of fields, each a name and a value; a value is a
scalar, an array of values or a map, which is itself a list of fields. The
fields of a map are kept in the order of their names, so two maps are equal
as maps exactly when the lists are equal, and comparing values deeply –
which is how an array is searched for an element – is comparing them with
`=`.

Integers and doubles are different scalars even where they denote the same
number, and a timestamp is an instant counted in microseconds, the
precision the store keeps.
-/

namespace Firestore

/-- An instant, in microseconds since the epoch. -/
structure Timestamp where
  /-- The microseconds counted since the epoch. -/
  microseconds : ℤ
  deriving DecidableEq, Repr

/-- The values with no parts. A double is the rational it denotes. -/
inductive Scalar where
  | null
  | bool (b : Bool)
  | int (n : Int64)
  | double (q : ℚ)
  | timestamp (t : Timestamp)
  | string (s : String)
  deriving DecidableEq

/-- **A value of the store.** -/
inductive Value where
  /-- A value with no parts. -/
  | scalar (s : Scalar)
  /-- An array, in order. -/
  | array (vs : List Value)
  /-- A map, its fields in the order of their names. -/
  | map (fs : List (String × Value))

namespace Value

/-- The absent value. -/
@[match_pattern] abbrev null : Value := .scalar .null

/-- A truth value. -/
@[match_pattern] abbrev bool (b : Bool) : Value := .scalar (.bool b)

/-- A 64-bit integer. -/
@[match_pattern] abbrev int (n : Int64) : Value := .scalar (.int n)

/-- A double. -/
@[match_pattern] abbrev double (q : ℚ) : Value := .scalar (.double q)

/-- An instant. -/
@[match_pattern] abbrev timestamp (t : Timestamp) : Value := .scalar (.timestamp t)

/-- A text. -/
@[match_pattern] abbrev string (s : String) : Value := .scalar (.string s)

mutual

/-- Deep comparison of values. -/
def decEq : (v w : Value) → Decidable (v = w)
  | .scalar s, .scalar t => decidable_of_iff (s = t) (by rw [Value.scalar.injEq])
  | .array vs, .array ws =>
    have := decEqArray vs ws
    decidable_of_iff (vs = ws) (by rw [Value.array.injEq])
  | .map fs, .map gs =>
    have := decEqFields fs gs
    decidable_of_iff (fs = gs) (by rw [Value.map.injEq])
  | .scalar _, .array _ | .scalar _, .map _ | .array _, .scalar _
  | .array _, .map _ | .map _, .scalar _ | .map _, .array _ => isFalse nofun

/-- Comparison of arrays, element by element. -/
def decEqArray : (vs ws : List Value) → Decidable (vs = ws)
  | [], [] => isTrue rfl
  | [], _ :: _ | _ :: _, [] => isFalse nofun
  | v :: vs, w :: ws =>
    have := decEq v w
    have := decEqArray vs ws
    decidable_of_iff (v = w ∧ vs = ws) (by rw [List.cons.injEq])

/-- Comparison of maps, field by field. -/
def decEqFields : (fs gs : List (String × Value)) → Decidable (fs = gs)
  | [], [] => isTrue rfl
  | [], _ :: _ | _ :: _, [] => isFalse nofun
  | (k, v) :: fs, (l, w) :: gs =>
    have := decEq v w
    have := decEqFields fs gs
    decidable_of_iff ((k = l ∧ v = w) ∧ fs = gs)
      (by rw [List.cons.injEq, Prod.mk.injEq])

end

instance : DecidableEq Value := decEq

end Value

/-- **The fields of a document**, in the order of their names. -/
abbrev Fields := List (String × Value)

/-! ## Reading a value at a type

A field is read at the type the reader expects. A field that is absent, or
holds a value of another type, cannot be read: the cast fails. -/

/-- The text a field holds. -/
def asString : Option Value → Option String
  | some (.string s) => some s
  | _ => none

/-- The integer a field holds. -/
def asInt : Option Value → Option Int64
  | some (.int n) => some n
  | _ => none

/-- The truth value a field holds. -/
def asBool : Option Value → Option Bool
  | some (.bool b) => some b
  | _ => none

/-- The instant a field holds. -/
def asTimestamp : Option Value → Option Timestamp
  | some (.timestamp t) => some t
  | _ => none

/-- The elements of the array a field holds. -/
def asArray : Option Value → Option (List Value)
  | some (.array vs) => some vs
  | _ => none

/-- The fields of the map a value is. -/
def asMap : Value → Option Fields
  | .map fs => some fs
  | _ => none

/-- A text is read from a text. -/
theorem asString_eq_some {v : Option Value} {s : String} :
    asString v = some s ↔ v = some (.string s) := by
  unfold asString
  constructor
  · intro h
    split at h
    · rw [Option.some.inj h]
    · exact absurd h (by simp)
  · rintro rfl
    rfl

/-- An integer is read from an integer. -/
theorem asInt_eq_some {v : Option Value} {n : Int64} :
    asInt v = some n ↔ v = some (.int n) := by
  unfold asInt
  constructor
  · intro h
    split at h
    · rw [Option.some.inj h]
    · exact absurd h (by simp)
  · rintro rfl
    rfl

/-- An instant is read from an instant. -/
theorem asTimestamp_eq_some {v : Option Value} {t : Timestamp} :
    asTimestamp v = some t ↔ v = some (.timestamp t) := by
  unfold asTimestamp
  constructor
  · intro h
    split at h
    · rw [Option.some.inj h]
    · exact absurd h (by simp)
  · rintro rfl
    rfl

/-- The elements of an array are read from an array. -/
theorem asArray_eq_some {v : Option Value} {vs : List Value} :
    asArray v = some vs ↔ v = some (.array vs) := by
  unfold asArray
  constructor
  · intro h
    split at h
    · rw [Option.some.inj h]
    · exact absurd h (by simp)
  · rintro rfl
    rfl

/-- A list that is read has each element read, in its place among what is
read. -/
theorem exists_of_mem_mapM {α β : Type} {f : α → Option β} {xs : List α} {ys : List β}
    (h : xs.mapM f = some ys) {x : α} (hx : x ∈ xs) : ∃ y ∈ ys, f x = some y := by
  induction xs generalizing ys with
  | nil => exact absurd hx List.not_mem_nil
  | cons z xs ih =>
    rw [List.mapM_cons] at h
    obtain ⟨y, hy, h⟩ := Option.bind_eq_some_iff.mp h
    obtain ⟨zs, hzs, h⟩ := Option.bind_eq_some_iff.mp h
    obtain rfl := Option.some.inj h
    rcases List.mem_cons.mp hx with rfl | hx
    · exact ⟨y, List.mem_cons_self .., hy⟩
    · obtain ⟨y', hy', hfx⟩ := ih hzs hx
      exact ⟨y', List.mem_cons_of_mem y hy', hfx⟩

/-- **A list is read where each of its elements is.** -/
theorem isSome_mapM_iff {α β : Type} {f : α → Option β} {xs : List α} :
    (xs.mapM f).isSome ↔ ∀ x ∈ xs, (f x).isSome := by
  constructor
  · intro h x hx
    obtain ⟨ys, hys⟩ := Option.isSome_iff_exists.mp h
    obtain ⟨y, -, hy⟩ := exists_of_mem_mapM hys hx
    rw [hy]
    rfl
  · intro h
    induction xs with
    | nil => rfl
    | cons x xs ih =>
      obtain ⟨y, hy⟩ := Option.isSome_iff_exists.mp (h x (List.mem_cons_self ..))
      obtain ⟨ys, hys⟩ := Option.isSome_iff_exists.mp
        (ih (fun x' hx' => h x' (List.mem_cons_of_mem x hx')))
      rw [List.mapM_cons, hy, hys]
      rfl

/-- Where every element is read, the list is. -/
theorem mapM_of_forall {α β : Type} {f : α → Option β} {g : α → β} {xs : List α}
    (h : ∀ x ∈ xs, f x = some (g x)) : xs.mapM f = some (xs.map g) := by
  induction xs with
  | nil => rfl
  | cons x xs ih =>
    rw [List.mapM_cons, h x (List.mem_cons_self ..),
      ih (fun y hy => h y (List.mem_cons_of_mem x hy))]
    rfl

/-- **Elements that decode to what they encode** decode, as an array, to the
list they encode. -/
theorem mapM_map_of_leftInverse {α : Type} {g : α → Value}
    {f : Value → Option α} (h : ∀ x, f (g x) = some x) (xs : List α) :
    (xs.map g).mapM f = some xs := by
  induction xs with
  | nil => rfl
  | cons x xs ih =>
    rw [List.map_cons, List.mapM_cons, h, ih]
    rfl

/-! ## Fields by name -/

/-- Names are ordered by their characters. -/
def precedes : List Char → List Char → Bool
  | [], [] => false
  | [], _ :: _ => true
  | _ :: _, [] => false
  | c :: cs, d :: ds => c.toNat < d.toNat || (c == d && precedes cs ds)

/-- No name comes before itself. -/
theorem precedes_irrefl (cs : List Char) : precedes cs cs = false := by
  induction cs with
  | nil => rfl
  | cons c cs ih => simp [precedes, ih]

/-- Of two names at most one comes before the other. -/
theorem precedes_asymm {cs ds : List Char} (h : precedes cs ds = true) :
    precedes ds cs = false := by
  induction cs generalizing ds with
  | nil =>
    cases ds with
    | nil => exact absurd h (by decide)
    | cons d ds => rfl
  | cons c cs ih =>
    cases ds with
    | nil => exact absurd h (by simp [precedes])
    | cons d ds =>
      simp only [precedes, Bool.or_eq_true, decide_eq_true_eq, Bool.and_eq_true,
        beq_iff_eq] at h
      rcases h with hlt | ⟨rfl, hrest⟩
      · have hne : d ≠ c := fun hc => absurd hlt (by rw [hc]; exact Nat.lt_irrefl _)
        simp [precedes, hne, Nat.le_of_lt hlt]
      · simp [precedes, ih hrest]

/-- Names are ordered transitively. -/
theorem precedes_trans {cs ds es : List Char} (h : precedes cs ds = true)
    (h' : precedes ds es = true) : precedes cs es = true := by
  induction cs generalizing ds es with
  | nil =>
    cases es with
    | nil =>
      cases ds with
      | nil => exact h
      | cons d ds => exact absurd h' (by simp [precedes])
    | cons e es => rfl
  | cons c cs ih =>
    cases ds with
    | nil => exact absurd h (by simp [precedes])
    | cons d ds =>
      cases es with
      | nil => exact absurd h' (by simp [precedes])
      | cons e es =>
        simp only [precedes, Bool.or_eq_true, decide_eq_true_eq, Bool.and_eq_true,
          beq_iff_eq] at h h' ⊢
        rcases h with hlt | ⟨rfl, hrest⟩
        · rcases h' with hlt' | ⟨rfl, -⟩
          · exact Or.inl (hlt.trans hlt')
          · exact Or.inl hlt
        · rcases h' with hlt' | ⟨rfl, hrest'⟩
          · exact Or.inl hlt'
          · exact Or.inr ⟨rfl, ih hrest hrest'⟩

/-- Of two different names one comes before the other. -/
theorem precedes_total {cs ds : List Char} (hne : cs ≠ ds) (h : precedes cs ds = false) :
    precedes ds cs = true := by
  induction cs generalizing ds with
  | nil =>
    cases ds with
    | nil => exact absurd rfl hne
    | cons d ds => exact absurd h (by simp [precedes])
  | cons c cs ih =>
    cases ds with
    | nil => rfl
    | cons d ds =>
      simp only [precedes, Bool.or_eq_false_iff, decide_eq_false_iff_not, Bool.and_eq_false_iff,
        beq_eq_false_iff_ne] at h
      simp only [precedes, Bool.or_eq_true, decide_eq_true_eq, Bool.and_eq_true, beq_iff_eq]
      rcases Nat.lt_trichotomy d.toNat c.toNat with hlt | heq | hlt
      · exact Or.inl hlt
      · obtain rfl : d = c := Char.toNat_inj.mp heq
        exact Or.inr ⟨rfl, ih (fun hc => hne (by rw [hc])) (h.2.resolve_left (fun hc => hc rfl))⟩
      · exact absurd hlt h.1

namespace Fields

/-- The value of a field, if the document has it. -/
def get? (d : Fields) (k : String) : Option Value := d.lookup k

/-- The document with one field set, in its place in the order. -/
def set : Fields → String → Value → Fields
  | [], k, v => [(k, v)]
  | (l, w) :: d, k, v =>
    if k = l then (k, v) :: d
    else if precedes k.toList l.toList then (k, v) :: (l, w) :: d
    else (l, w) :: set d k v

/-- The fields are in the order of their names, each once. -/
def Sorted (d : Fields) : Prop :=
  (d.map Prod.fst).Pairwise (fun k l => precedes k.toList l.toList = true)

theorem get?_nil (k : String) : get? [] k = none := rfl

theorem get?_cons (l : String) (w : Value) (d : Fields) (k : String) :
    get? ((l, w) :: d) k = if k = l then some w else get? d k := by
  unfold get?
  by_cases h : k = l
  · subst h
    rw [if_pos rfl, List.lookup_cons_self]
  · rw [if_neg h, List.lookup_cons]
    simp only [beq_eq_false_iff_ne.mpr h]

/-- A field set is read back, and the other fields read as before. -/
theorem get?_set (d : Fields) (k : String) (v : Value) (l : String) :
    (d.set k v).get? l = if l = k then some v else d.get? l := by
  induction d with
  | nil => rw [set, get?_cons]
  | cons f d ih =>
    obtain ⟨m, w⟩ := f
    rw [set]
    by_cases hkm : k = m
    · subst hkm
      rw [if_pos rfl, get?_cons, get?_cons]
      by_cases hl : l = k
      · rw [if_pos hl, if_pos hl]
      · rw [if_neg hl, if_neg hl, if_neg hl]
    · rw [if_neg hkm]
      split
      · rw [get?_cons]
      · rw [get?_cons, get?_cons, ih]
        by_cases hl : l = m
        · rw [if_pos hl, if_neg (fun hc => hkm (hc.symm.trans hl)), if_pos hl]
        · rw [if_neg hl, if_neg hl]

/-- **Setting a field the document has** replaces its value. -/
theorem set_of_mem {d : Fields} (hd : d.Sorted) {k : String} (v : Value)
    (hk : k ∈ d.map Prod.fst) :
    d.set k v = d.map (fun f => if f.fst = k then (k, v) else f) := by
  induction d with
  | nil => exact absurd hk List.not_mem_nil
  | cons f d ih =>
    obtain ⟨l, w⟩ := f
    obtain ⟨hl, hd'⟩ := List.pairwise_cons.mp hd
    rw [set, List.map_cons]
    by_cases hkl : k = l
    · subst hkl
      rw [if_pos rfl, if_pos rfl]
      refine congrArg (List.cons (k, v)) ?_
      refine (List.map_id' d).symm.trans (List.map_congr_left (fun f hf => ?_))
      refine (if_neg (fun hc => ?_)).symm
      have hlt := hl f.fst (List.mem_map_of_mem hf)
      rw [hc, precedes_irrefl] at hlt
      exact Bool.false_ne_true hlt
    · have hk' : k ∈ d.map Prod.fst := (List.mem_cons.mp hk).resolve_left hkl
      rw [if_neg hkl, precedes_asymm (hl k hk'), if_neg Bool.false_ne_true,
        if_neg (fun hc => hkl hc.symm), ih hd' hk']

/-- A field named after all the others goes to the end. -/
theorem set_of_forall_precedes {d : Fields} {k : String} (v : Value)
    (h : ∀ l ∈ d.map Prod.fst, precedes l.toList k.toList = true) :
    d.set k v = d ++ [(k, v)] := by
  induction d with
  | nil => rfl
  | cons f d ih =>
    obtain ⟨l, w⟩ := f
    have hl := h l (List.mem_cons_self ..)
    have hd := ih (fun l' hl' => h l' (List.mem_cons_of_mem l hl'))
    have hne : k ≠ l := by
      intro hc
      rw [hc, precedes_irrefl] at hl
      exact Bool.false_ne_true hl
    rw [set, if_neg hne, precedes_asymm hl, if_neg Bool.false_ne_true, hd]
    rfl

/-- The fields of a document with one set are its own and that one. -/
theorem mem_set {d : Fields} {k : String} {v : Value} {f : String × Value}
    (h : f ∈ d.set k v) : f = (k, v) ∨ f ∈ d := by
  induction d with
  | nil => exact Or.inl (List.mem_singleton.mp h)
  | cons g d ih =>
    obtain ⟨l, w⟩ := g
    rw [set] at h
    split at h
    · rcases List.mem_cons.mp h with rfl | h
      · exact Or.inl rfl
      · exact Or.inr (List.mem_cons_of_mem _ h)
    · split at h
      · exact List.mem_cons.mp h
      · rcases List.mem_cons.mp h with rfl | h
        · exact Or.inr (List.mem_cons_self ..)
        · exact (ih h).imp_right (List.mem_cons_of_mem _)

/-- **Setting a field keeps the order of the names.** -/
theorem Sorted.set {d : Fields} (hd : d.Sorted) (k : String) (v : Value) :
    (d.set k v).Sorted := by
  induction d with
  | nil => exact List.pairwise_singleton _ _
  | cons f d ih =>
    obtain ⟨l, w⟩ := f
    obtain ⟨hl, hd'⟩ := List.pairwise_cons.mp hd
    rw [Fields.set]
    by_cases hkl : k = l
    · subst hkl
      rw [if_pos rfl]
      exact hd
    · rw [if_neg hkl]
      by_cases hlt : precedes k.toList l.toList = true
      · rw [if_pos hlt]
        refine List.pairwise_cons.mpr ⟨fun m hm => ?_, hd⟩
        rcases List.mem_cons.mp hm with rfl | hm
        · exact hlt
        · exact precedes_trans hlt (hl m hm)
      · rw [if_neg hlt]
        refine List.pairwise_cons.mpr ⟨fun m hm => ?_, ih hd'⟩
        obtain ⟨f, hf, rfl⟩ := List.mem_map.mp hm
        rcases mem_set hf with rfl | hf
        · exact precedes_total (fun hc => hkl (String.toList_injective hc))
            (Bool.eq_false_iff.mpr hlt)
        · exact hl _ (List.mem_map_of_mem hf)

/-- Fields in order have each name once. -/
theorem Sorted.nodup {d : Fields} (hd : d.Sorted) : (d.map Prod.fst).Nodup := by
  refine List.Pairwise.imp (fun {k l} h hc => ?_) hd
  rw [hc, precedes_irrefl] at h
  exact Bool.false_ne_true h

/-- A name a document does not have reads nothing. -/
theorem get?_eq_none {d : Fields} {k : String} (h : k ∉ d.map Prod.fst) : d.get? k = none := by
  induction d with
  | nil => rfl
  | cons f d ih =>
    obtain ⟨l, w⟩ := f
    rw [get?_cons, if_neg (fun hc => h (List.mem_cons.mpr (Or.inl hc))),
      ih (fun hc => h (List.mem_cons_of_mem _ hc))]

/-- **Maps that have the same names, each once, and read alike** are equal. -/
theorem eq_of_get? {d e : Fields} (hd : (d.map Prod.fst).Nodup)
    (hnames : d.map Prod.fst = e.map Prod.fst)
    (hget : ∀ k ∈ d.map Prod.fst, get? d k = get? e k) : d = e := by
  induction d generalizing e with
  | nil => exact (List.map_eq_nil_iff.mp hnames.symm).symm
  | cons f d ih =>
    obtain ⟨k, v⟩ := f
    cases e with
    | nil => exact absurd hnames (by simp)
    | cons g e =>
      obtain ⟨l, w⟩ := g
      obtain ⟨hkl, hnames'⟩ := List.cons.inj hnames
      obtain ⟨hk, hd'⟩ := List.nodup_cons.mp hd
      obtain rfl : k = l := hkl
      have hvw := hget k (List.mem_cons_self ..)
      rw [get?_cons, get?_cons, if_pos rfl, if_pos rfl] at hvw
      have hrest : ∀ m ∈ d.map Prod.fst, get? d m = get? e m := by
        intro m hm
        have hne : m ≠ k := fun hc => hk (hc ▸ hm)
        have hm' := hget m (List.mem_cons_of_mem _ hm)
        rw [get?_cons, get?_cons, if_neg hne, if_neg hne] at hm'
        exact hm'
      rw [Option.some.inj hvw, ih hd' hnames' hrest]

/-- The fields of a map that is itself a field; what holds no map has none. -/
def ofValue : Option Value → Fields
  | some (.map fs) => fs
  | _ => []

/-- **The document with one field of a map set**, the map being a field itself:
where there is none yet, it becomes one. -/
def setIn (d : Fields) (k l : String) (v : Value) : Fields :=
  d.set k (.map (set (ofValue (d.get? k)) l v))

end Fields

end Firestore
