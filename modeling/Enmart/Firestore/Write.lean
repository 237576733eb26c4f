import Enmart.Base.Amounts
import Enmart.Base.Rounding
import Enmart.Base.SetArray
import Enmart.Firestore.Value

/-!
# Writes

A write names fields and says what each becomes: a given value, or a
*transform* of the value stored – an array with elements removed or added by
deep equality, or a number incremented. `Fields.patch` applies one to a
document that exists, in one atomic step, every transform reading the
document as it was before the write. A collection is a partial map from keys
to documents with three writes: `Collection.update` patches a document and
fails when there is none, `Collection.set` replaces the document or creates
it, its transforms applied to the empty document that replaces the old one,
and `Collection.delete` removes it.

The increment saturates: where the sum leaves the 64-bit range the stored
number stays at the bound. Over amounts that are never negative it is the
sum cut off at the largest word (`Firestore.toInt_safeIncrement`). An increment
of a double is a sum of doubles, and rounded.
-/

namespace Firestore

/-- Saturating addition of 64-bit integers. -/
def safeIncrement (x y : Int64) : Int64 :=
  if 0 < x ∧ Int64.maxValue - x < y then Int64.maxValue
  else if x < 0 ∧ y < Int64.minValue - x then Int64.minValue
  else x + y

/-- **The increment by a non-negative amount** is the sum, cut off at the
largest word. -/
theorem toInt_safeIncrement {x y : Int64} (hy : 0 ≤ y.toInt) :
    (safeIncrement x y).toInt = min (x.toInt + y.toInt) (2 ^ 63 - 1) := by
  have hx := x.le_toInt
  have hx' := x.toInt_lt
  have hy' := y.toInt_lt
  have hzero : (0 : Int64).toInt = 0 := Int64.toInt_zero
  have hmax : Int64.maxValue.toInt = 2 ^ 63 - 1 := Int64.toInt_maxValue
  have hmin : Int64.minValue.toInt = -2 ^ 63 := Int64.toInt_minValue
  have hsum : Int64.Fits (x.toInt + y.toInt) →
      (x + y).toInt = x.toInt + y.toInt := Int64.toInt_add_of_fits
  unfold safeIncrement
  simp only [Int64.lt_iff_toInt_lt, hzero, Int64.toInt_sub, hmax, hmin]
  by_cases hpos : 0 < x.toInt
  · have hsub : ((2 ^ 63 - 1 - x.toInt).bmod (2 ^ 64)) = 2 ^ 63 - 1 - x.toInt :=
      Int.bmod_eq_of_le (by omega) (by omega)
    rw [hsub]
    by_cases hov : 2 ^ 63 - 1 - x.toInt < y.toInt
    · rw [if_pos ⟨hpos, hov⟩, hmax]
      omega
    · rw [if_neg (fun h => hov h.2), if_neg (fun h => by omega),
        hsum ⟨by omega, by omega⟩]
      omega
  · have hneg : ¬ (x.toInt < 0 ∧ y.toInt < (-2 ^ 63 - x.toInt).bmod (2 ^ 64)) := by
      rintro ⟨hx0, hlt⟩
      rw [Int.bmod_eq_of_le (by omega) (by omega)] at hlt
      omega
    rw [if_neg (fun h => hpos h.1), if_neg hneg, hsum ⟨by omega, by omega⟩]
    omega

/-- In range the increment is the addition of integers. -/
theorem toInt_safeIncrement_of_fits {x y : Int64} (hy : 0 ≤ y.toInt)
    (h : Int64.Fits (x.toInt + y.toInt)) :
    (safeIncrement x y).toInt = x.toInt + y.toInt := by
  rw [toInt_safeIncrement hy]
  have := h.2
  omega

/-- What a write says a field becomes. -/
inductive FieldValue where
  /-- The value given. -/
  | value (v : Value)
  /-- The array stored, with those of the elements it lacks appended. -/
  | arrayUnion (vs : List Value)
  /-- The array stored, without the elements equal to one of these. -/
  | arrayRemove (vs : List Value)
  /-- The number stored, incremented. -/
  | increment (n : Int64)

/-- The elements of an array field; a field that holds no array, or is
absent, has none. -/
def elements : Option Value → List Value
  | some (.array vs) => vs
  | _ => []

@[simp] theorem elements_array (vs : List Value) :
    elements (some (.array vs)) = vs := rfl

/-- **The value a field takes**, from the value stored before the write. -/
def FieldValue.apply : FieldValue → Option Value → Value
  | .value v, _ => v
  | .arrayUnion vs, prev => .array (SetArray.union (elements prev) vs)
  | .arrayRemove vs, prev => .array (SetArray.remove (elements prev) vs)
  | .increment n, some (.int m) => .int (safeIncrement m n)
  | .increment n, some (.double q) => .double (binary64.round (q + binary64.round n.toInt))
  | .increment n, _ => .int (safeIncrement 0 n)

/-- A write to one document: the fields it names, with what they become. -/
abbrev Update := List (String × FieldValue)

/-- **The document a write leaves** where there was the document `d`. -/
def Fields.patch (d : Fields) (us : Update) : Fields :=
  us.foldl (fun acc u => acc.set u.fst (u.snd.apply (d.get? u.fst))) d

/-- The document a write leaves where it replaces whatever was there. -/
def Fields.ofUpdate (us : Update) : Fields := Fields.patch [] us

/-- The write that gives every field of a document its value. -/
def Fields.values (d : Fields) : Update := d.map (fun f => (f.fst, .value f.snd))

/-- A field that a write does not name is as it was. -/
theorem Fields.get?_patch_of_notMem {us : Update} {k : String} (h : k ∉ us.map Prod.fst)
    (d : Fields) : (d.patch us).get? k = d.get? k := by
  have hfold : ∀ acc : Fields, Fields.get? (us.foldl
      (fun acc u => acc.set u.fst (u.snd.apply (d.get? u.fst))) acc) k = acc.get? k := by
    induction us with
    | nil => exact fun acc => rfl
    | cons u us ih =>
      obtain ⟨hne, hus⟩ := not_or.mp (fun hor => h (List.mem_cons.mpr hor))
      intro acc
      show Fields.get? (us.foldl _ (acc.set u.fst _)) k = _
      rw [ih hus, Fields.get?_set, if_neg hne]
  exact hfold d

/-- **A document put whole is the document.** -/
theorem Fields.ofUpdate_values {d : Fields} (hd : d.Sorted) :
    Fields.ofUpdate (Fields.values d) = d := by
  have hfold : ∀ e acc : Fields, (acc ++ e).Sorted →
      (Fields.values e).foldl
        (fun acc u => acc.set u.fst (u.snd.apply (Fields.get? [] u.fst))) acc
        = acc ++ e := by
    intro e
    induction e with
    | nil => intro acc _; exact (List.append_nil acc).symm
    | cons f e ih =>
      intro acc hacc
      have hnext : (acc ++ [f] ++ e).Sorted := by
        rw [List.append_assoc]
        exact hacc
      unfold Fields.Sorted at hacc
      rw [List.map_append, List.pairwise_append] at hacc
      have hset : acc.set f.fst f.snd = acc ++ [f] :=
        Fields.set_of_forall_precedes f.snd
          (fun l hl => hacc.2.2 l hl f.fst (List.mem_cons_self ..))
      show (Fields.values e).foldl _ (acc.set f.fst f.snd) = _
      rw [hset, ih _ hnext, List.append_assoc]
      rfl
  exact hfold d [] hd

/-- **Patched with given values** a document has these, and its own values
elsewhere. -/
theorem Fields.get?_patch_values {e : Fields} (he : e.Sorted) (d : Fields) (k : String) :
    (Fields.patch d (Fields.values e)).get? k = (e.get? k).or (d.get? k) := by
  have hfold : ∀ e acc : Fields, e.Sorted →
      ((Fields.values e).foldl
        (fun acc u => acc.set u.fst (u.snd.apply (Fields.get? d u.fst))) acc).get? k
        = (e.get? k).or (acc.get? k) := by
    intro e
    induction e with
    | nil => intro acc _; rfl
    | cons f e ih =>
      intro acc hacc
      obtain ⟨l, w⟩ := f
      show Fields.get? ((Fields.values e).foldl _ (acc.set l w)) k = _
      rw [ih _ (List.pairwise_cons.mp hacc).2, Fields.get?_set, Fields.get?_cons]
      by_cases hk : k = l
      · subst hk
        have hnot : k ∉ e.map Prod.fst := (List.nodup_cons.mp (Fields.Sorted.nodup hacc)).1
        rw [if_pos rfl, if_pos rfl, Fields.get?_eq_none hnot]
        rfl
      · rw [if_neg hk, if_neg hk]
  exact hfold e d he

/-- A collection: the documents, by their keys. -/
abbrev Collection := String → Option Fields

namespace Collection

/-- Patch the document at a key. There is no such write without a document:
it fails as *not found*. -/
def update (c : Collection) (k : String) (us : Update) : Option Collection :=
  (c k).map (fun d => Function.update c k (some (d.patch us)))

/-- Put a document at a key, whatever was there. -/
def set (c : Collection) (k : String) (us : Update) : Collection :=
  Function.update c k (some (Fields.ofUpdate us))

/-- Remove the document at a key, if there is one. -/
def delete (c : Collection) (k : String) : Collection :=
  Function.update c k none

/-- The key written reads the document written. -/
@[simp] theorem set_self (c : Collection) (k : String) (us : Update) :
    set c k us k = some (Fields.ofUpdate us) := Function.update_self ..

/-- A write under one key leaves what is under another. -/
theorem set_of_ne {c : Collection} {k l : String} (us : Update) (h : l ≠ k) :
    set c k us l = c l := Function.update_of_ne h ..

/-- Every document has a property, which may speak of its key. -/
def Each (c : Collection) (P : String → Fields → Prop) : Prop :=
  ∀ k doc, c k = some doc → P k doc

variable {c : Collection} {P : String → Fields → Prop}

/-- A document with the property may be put anywhere. -/
theorem Each.put (h : c.Each P) {k : String} {doc : Fields} (hdoc : P k doc) :
    Each (Function.update c k (some doc)) P := by
  intro l d hd
  by_cases hl : l = k
  · subst hl
    rw [Function.update_self] at hd
    rw [← Option.some.inj hd]
    exact hdoc
  · rw [Function.update_of_ne hl] at hd
    exact h l d hd

/-- What holds of each document holds when one is removed. -/
theorem Each.delete (h : c.Each P) (k : String) : Each (c.delete k) P := by
  intro l d hd
  by_cases hl : l = k
  · subst hl
    rw [Collection.delete, Function.update_self] at hd
    exact absurd hd (by simp)
  · rw [Collection.delete, Function.update_of_ne hl] at hd
    exact h l d hd

end Collection

end Firestore
