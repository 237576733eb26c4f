import Enmart.Firestore.LocalView

/-!
# What the application writes, as the client makes it

The application writes a document by naming fields and saying what each becomes. The
client puts the values that are given in a map of their own, with a mask of the
fields they are for, and the rest in transforms (`parsedUpdateData`,
`parsedSetData`); the mutation that comes of it makes of a document what the write
says (`updateData_value`, `setData_value`).

A document that is set is made of nothing, but its transforms are made of what the
document was.
-/

namespace Firestore

open ObjectValue Mutation

/-! ## Fields that are apart -/

/-- Two fields are apart when neither is the other, nor in it. -/
def FieldPath.Apart (p q : FieldPath) : Prop := ¬ p <+: q ∧ ¬ q <+: p

/-- A field that is apart from another is apart from what is in the other. -/
theorem FieldPath.Apart.append {p q : FieldPath} (h : p.Apart q) (r : FieldPath) :
    p.Apart (q ++ r) :=
  ⟨fun hc => (List.prefix_or_prefix_of_prefix hc (List.prefix_append q r)).elim h.1 h.2,
    fun hc => h.2 ((List.prefix_append q r).trans hc)⟩

/-- Being apart goes both ways. -/
theorem FieldPath.Apart.symm {p q : FieldPath} (h : p.Apart q) : q.Apart p := ⟨h.2, h.1⟩

/-- The fields of a list are distinct when any two of them are apart. -/
structure FieldPath.Distinct (ps : List FieldPath) : Prop where
  ne_nil : ∀ p ∈ ps, p ≠ []
  apart : ps.Pairwise Apart

namespace ObjectValue

variable {d e : Fields}

/-- A field whose paths all read as in a value has that value. -/
theorem get_eq_some_of_look (hd : d.InOrder) {p : FieldPath} {v : Value} (hv : v.InOrder)
    (h : ∀ r, look d (p ++ r) = v.look r) : get d p = some v := by
  cases hw : get d p with
  | none =>
    have hnil := h []
    rw [List.append_nil, look_eq_absent.mpr hw] at hnil
    exact absurd hnil.symm v.look_nil_ne_absent
  | some w =>
    refine congrArg some (Value.eq_of_look (inOrder_of_get hd hw) hv (fun r => ?_))
    rw [← look_append_of_get hw, h]

/-- A field whose paths all read the same in two documents has the same value in
both. -/
theorem get_eq_of_look (hd : d.InOrder) (he : e.InOrder) {p : FieldPath}
    (h : ∀ r, look d (p ++ r) = look e (p ++ r)) : get d p = get e p := by
  cases hw : get e p with
  | none =>
    have hnil := h []
    rw [List.append_nil, look_eq_absent.mpr hw] at hnil
    exact look_eq_absent.mp hnil
  | some w =>
    exact get_eq_some_of_look hd (inOrder_of_get he hw)
      (fun r => (h r).trans (look_append_of_get hw r))

/-- Documents with the same value in a field read alike where it has to do with
it. -/
theorem look_eq_of_get {p q : FieldPath} {v : Value} (h : get d p = some v) (h' : get e p = some v)
    (hq : ¬ p.Apart q) : look d q = look e q := by
  by_cases hbelow : p <+: q
  · obtain ⟨r, rfl⟩ := hbelow
    rw [look_append_of_get h, look_append_of_get h']
  · have habove : q <+: p := by_contra (fun hc => hq ⟨hbelow, hc⟩)
    have hne : q ≠ p := fun hc => hbelow (hc ▸ List.prefix_refl p)
    have hthere {w : Fields} (hw : get w p = some v) : look w p ≠ .absent := fun hc => by
      rw [look_eq_absent.mp hc] at hw
      exact nomatch hw
    rw [look_above (hthere h) habove hne, look_above (hthere h') habove hne]

/-- The document with values put in several fields, one after the other. -/
def setFields (d : Fields) (l : List (FieldPath × Value)) : Fields :=
  l.foldl (fun d c => set d c.fst c.snd) d

/-- **Values put in fields that are apart** are read there, and nothing else
changes. -/
theorem setFields_spec {l : List (FieldPath × Value)} (hd : d.InOrder)
    (hl : FieldPath.Distinct (l.map Prod.fst)) (hvalues : ∀ c ∈ l, c.snd.InOrder) :
    (setFields d l).InOrder ∧ (∀ c ∈ l, get (setFields d l) c.fst = some c.snd)
      ∧ ∀ q, (∀ c ∈ l, c.fst.Apart q) → look (setFields d l) q = look d q := by
  induction l generalizing d with
  | nil => exact ⟨hd, fun _ h => absurd h List.not_mem_nil, fun _ _ => rfl⟩
  | cons c l ih =>
    obtain ⟨p, v⟩ := c
    obtain ⟨hv, hvalues⟩ := List.forall_mem_cons.mp hvalues
    obtain ⟨hp, hne⟩ := List.forall_mem_cons.mp hl.ne_nil
    obtain ⟨hapart, hpairs⟩ := List.pairwise_cons.mp hl.apart
    obtain ⟨horder, hget, hrest⟩ := ih (inOrder_set hd hv hp) ⟨hne, hpairs⟩ hvalues
    refine ⟨horder, fun c hc => ?_, fun q hq => ?_⟩
    · rcases List.mem_cons.mp hc with rfl | hc
      · -- what is put after it is apart from it
        refine get_eq_some_of_look horder hv (fun r => ?_)
        rw [← look_set_append hd hp]
        exact hrest (p ++ r) (fun c hc => ((hapart c.fst (List.mem_map_of_mem hc)).symm).append r)
      · exact hget c hc
    · obtain ⟨hpq, hq⟩ := List.forall_mem_cons.mp hq
      exact (hrest q hq).trans (look_set_apart hd hpq.1 hpq.2)

/-- **Values of another document put in this one**: at each path that has to do with
one of the fields, it is that document that is read. -/
theorem look_setAll_of_get {w : Fields} (hd : d.InOrder) {data : TransformMap} (hputs : Puts data)
    (hget : ∀ c ∈ data, get w c.fst = c.snd) :
    (setAll d data).InOrder
      ∧ (∀ q, (∃ c ∈ data, ¬ c.fst.Apart q) → look (setAll d data) q = look w q)
      ∧ ∀ q, (∀ c ∈ data, c.fst.Apart q) → look (setAll d data) q = look d q := by
  rw [setAll_eq_foldl hd hputs.1 (hputs.deletesInVain d)]
  obtain ⟨hproper, hvalues⟩ := hputs
  induction data generalizing d with
  | nil => exact ⟨hd, fun _ ⟨_, h, _⟩ => absurd h List.not_mem_nil, fun _ _ => rfl⟩
  | cons c data ih =>
    obtain ⟨p, value⟩ := c
    obtain ⟨⟨hp, hvalue⟩, hproper'⟩ := List.forall_mem_cons.mp hproper
    obtain ⟨hsome, hvalues'⟩ := List.forall_mem_cons.mp hvalues
    obtain ⟨hw, hget'⟩ := List.forall_mem_cons.mp hget
    cases value with
    | none => exact absurd rfl hsome
    | some v =>
      obtain ⟨horder, hread, hrest⟩ :=
        ih (inOrder_set hd (hvalue v rfl) hp) hget' hproper' hvalues'
      refine ⟨horder, fun q hq => ?_, fun q hq => ?_⟩
      · by_cases hlater : ∃ c ∈ data, ¬ c.fst.Apart q
        · exact hread q hlater
        · have hapart : ∀ c ∈ data, c.fst.Apart q :=
            fun c hc => by_contra (fun hnot => hlater ⟨c, hc, hnot⟩)
          obtain ⟨c, hc, hnot⟩ := hq
          rcases List.mem_cons.mp hc with rfl | hc
          · refine (hrest q hapart).trans (look_set_of_get hd hp hw ?_)
            by_contra hcomp
            exact hnot (not_or.mp hcomp)
          · exact absurd (hapart c hc) hnot
      · obtain ⟨hpq, hq⟩ := List.forall_mem_cons.mp hq
        exact (hrest q hq).trans (look_set_apart hd hpq.1 hpq.2)

end ObjectValue

/-! ## What user data comes to -/

/-- The value a field is given, if it is given one. -/
def FieldValue.given : FieldValue → Option Value
  | .value v => some v
  | _ => none

/-- The transform that is made of a field that is given no value. -/
def FieldValue.transformation : FieldValue → Option TransformOperation
  | .value _ => none
  | .arrayUnion vs => some (.arrayUnion vs)
  | .arrayRemove vs => some (.arrayRemove vs)
  | .increment n => some (.numericIncrement (.integer n))

/-- **A field is given a value, or a transform of it is made.** -/
theorem FieldValue.given_or_transformation (f : FieldValue) :
    (∃ v, f.given = some v ∧ f.transformation = none ∧ ∀ previousValue, f.apply previousValue = v)
      ∨ ∃ t, f.given = none ∧ f.transformation = some t
        ∧ ∀ previousValue, t.applyToLocalView previousValue = f.apply previousValue := by
  cases f with
  | value v => exact Or.inl ⟨v, rfl, rfl, fun _ => rfl⟩
  | arrayUnion vs =>
    refine Or.inr ⟨_, rfl, rfl, fun previousValue => congrArg Value.array ?_⟩
    have hfold : ∀ (es acc : List Value), elements previousValue ++ es.foldl (fun acc e =>
          if e ∉ elements previousValue ∧ e ∉ acc then acc ++ [e] else acc) acc
        = SetArray.union (elements previousValue ++ acc) es := by
      intro es
      induction es with
      | nil => exact fun acc => rfl
      | cons e es ih =>
        intro acc
        show _ ++ es.foldl _ (if _ then _ else _) = SetArray.union (if _ then _ else _) es
        rw [ih]
        by_cases he : e ∈ elements previousValue ++ acc
        · rw [if_pos he, if_neg (fun hc => (List.mem_append.mp he).elim hc.1 hc.2)]
        · rw [if_neg he, if_pos (not_or.mp (fun hc => he (List.mem_append.mpr hc))),
            List.append_assoc]
    exact (hfold vs []).trans (by rw [List.append_nil])
  | arrayRemove vs => exact Or.inr ⟨_, rfl, rfl, fun _ => rfl⟩
  | increment n =>
    refine Or.inr ⟨_, rfl, rfl, fun previousValue => ?_⟩
    rcases previousValue with _ | ⟨_ | _ | _ | _ | _ | _⟩ | _ | _ <;> rfl

/-- The value that a field takes is in order, if the one that is given is. -/
theorem FieldValue.inOrder_apply {f : FieldValue} (h : ∀ v, f.given = some v → v.InOrder)
    (previousValue : Option Value) : (f.apply previousValue).InOrder := by
  rcases f.given_or_transformation with ⟨v, hv, -, happly⟩ | ⟨t, -, -, happly⟩
  · rw [happly]
    exact h v hv
  · rw [← happly]
    exact t.inOrder_applyToLocalView previousValue

/-- **What user data comes to**: the values that are given, the fields they are for,
and the transforms. -/
structure ParsedData where
  data : Fields
  fieldMask : FieldMask
  fieldTransforms : List FieldTransform

/-- The fields that a value is put in the mask for: those of a map, and the field of
the value. -/
def Value.maskPaths (path : FieldPath) (v : Value) : List FieldPath :=
  (if v.fieldMask = [] then [path] else v.fieldMask.map (fun p => path ++ p)) ++ [path]

/-- The values that are given, with the paths of their fields. -/
def givenValues (fields : List (FieldPath × FieldValue)) : List (FieldPath × Value) :=
  fields.filterMap (fun f => f.snd.given.map (fun v => (f.fst, v)))

/-- The transforms that are made, with the paths of their fields. -/
def transformsOf (fields : List (FieldPath × FieldValue)) : List FieldTransform :=
  fields.filterMap (fun f => f.snd.transformation.map (fun t => ⟨f.fst, t⟩))

/-- **What the fields of an update come to.** -/
def parsedUpdateData (fields : List (FieldPath × FieldValue)) : ParsedData where
  data := setFields [] (givenValues fields)
  fieldMask := ((givenValues fields).flatMap (fun c => c.snd.maskPaths c.fst)).foldl
    (fun mask p => mask.insert p) []
  fieldTransforms := transformsOf fields

/-- **What a document that is set comes to**: the values of its names, in order,
and the transforms. -/
def parsedSetData (fields : Update) : Fields × List FieldTransform :=
  ((fields.filterMap (fun f => f.snd.given.map (fun v => (f.fst, v)))).foldl
    (fun d c => Fields.set d c.fst c.snd) [],
    transformsOf (fields.map (fun f => ([f.fst], f.snd))))

/-- The mutation of an update: there has to be a document. -/
def updateData (fields : List (FieldPath × FieldValue)) : Mutation :=
  let parsed := parsedUpdateData fields
  .patch parsed.data parsed.fieldMask (.exists true) parsed.fieldTransforms

/-- The mutation that sets a document. -/
def setData (fields : Update) : Mutation :=
  .set (parsedSetData fields).fst .none (parsedSetData fields).snd

/-- The mutation that deletes a document. -/
def deleteDocument : Mutation := .delete .none

/-! ## What the mutations make of a document -/

/-- The fields of a write are apart, and their values in order. -/
structure IsUserData (fields : List (FieldPath × FieldValue)) : Prop where
  distinct : FieldPath.Distinct (fields.map Prod.fst)
  given : ∀ f ∈ fields, ∀ v, f.snd.given = some v → v.InOrder

/-- The values of an update have no fields of their own. -/
structure IsUpdateData (fields : List (FieldPath × FieldValue)) : Prop extends
    IsUserData fields where
  leaf : ∀ f ∈ fields, ∀ v, f.snd.given = some v → v.fieldMask = []

/-- **The document that a write says**: its fields are put in one document, and take
their values from another. -/
def written (base d : Fields) (fields : List (FieldPath × FieldValue)) : Fields :=
  setFields base (fields.map (fun f => (f.fst, f.snd.apply (ObjectValue.get d f.fst))))

variable {fields : List (FieldPath × FieldValue)}

/-- What is taken of the fields of a write, field by field, is taken of one of
them. -/
theorem mem_filterMap_path {g : FieldPath × FieldValue → Option Value} {c : FieldPath × Value} :
    c ∈ fields.filterMap (fun f => (g f).map (fun v => (f.fst, v)))
      ↔ ∃ f ∈ fields, f.fst = c.fst ∧ g f = some c.snd := by
  rw [List.mem_filterMap]
  refine exists_congr (fun f => and_congr_right (fun _ => ?_))
  rw [Option.map_eq_some_iff]
  constructor
  · rintro ⟨v, hv, rfl⟩
    exact ⟨rfl, hv⟩
  · rintro ⟨hpath, hv⟩
    exact ⟨c.snd, hv, Prod.ext hpath rfl⟩

/-- The fields that something is taken of are distinct, if all are. -/
theorem FieldPath.Distinct.filterMap_path (h : FieldPath.Distinct (fields.map Prod.fst))
    (g : FieldPath × FieldValue → Option Value) :
    FieldPath.Distinct
      ((fields.filterMap (fun f => (g f).map (fun v => (f.fst, v)))).map Prod.fst) := by
  have hsub : List.Sublist ((fields.filterMap (fun f => (g f).map (fun v => (f.fst, v)))).map Prod.fst)
      (fields.map Prod.fst) := by
    clear h
    induction fields with
    | nil => exact List.Sublist.slnil
    | cons f fields ih =>
      rw [List.filterMap_cons]
      cases g f with
      | none => exact ih.cons _
      | some v => exact ih.cons_cons _
  exact ⟨fun p hp => h.ne_nil p (hsub.subset hp), h.apart.sublist hsub⟩

/-- Two fields of a write are apart, if its fields are distinct. -/
theorem FieldPath.Distinct.apart_of_ne (h : FieldPath.Distinct (fields.map Prod.fst))
    {f g : FieldPath × FieldValue} (hf : f ∈ fields) (hg : g ∈ fields) (hne : f ≠ g) :
    f.fst.Apart g.fst := by
  have : Std.Symm (fun f g : FieldPath × FieldValue => f.fst.Apart g.fst) := ⟨fun _ _ h => h.symm⟩
  exact (List.pairwise_map.mp h.apart).forall hf hg hne

/-- A value is given exactly when a field of the write is given it. -/
theorem mem_givenValues {c : FieldPath × Value} :
    c ∈ givenValues fields ↔ ∃ f ∈ fields, f.fst = c.fst ∧ f.snd.given = some c.snd :=
  mem_filterMap_path

/-- A transform is made exactly when a field of the write is given it. -/
theorem mem_transformsOf {t : FieldTransform} :
    t ∈ transformsOf fields
      ↔ ∃ f ∈ fields, f.fst = t.path ∧ f.snd.transformation = some t.transformation := by
  rw [transformsOf, List.mem_filterMap]
  refine exists_congr (fun f => and_congr_right (fun _ => ?_))
  rw [Option.map_eq_some_iff]
  constructor
  · rintro ⟨u, hu, rfl⟩
    exact ⟨rfl, hu⟩
  · rintro ⟨hpath, hu⟩
    exact ⟨t.transformation, hu, by rw [hpath]⟩

/-- The value a transform comes to is made of what the document has in its field.
-/
theorem exists_of_mem_localTransformResults {transforms : List FieldTransform} {d : Fields}
    {c : FieldPath × Option Value} (h : c ∈ localTransformResults transforms d) :
    ∃ t ∈ transforms,
      c = (t.path, some (t.transformation.applyToLocalView (ObjectValue.get d t.path))) := by
  refine List.foldlRecOn (b := []) (motive := fun results : TransformMap => c ∈ results →
    ∃ t ∈ transforms,
      c = (t.path, some (t.transformation.applyToLocalView (ObjectValue.get d t.path))))
    transforms _ (fun h => absurd h List.not_mem_nil) (fun results ih t ht hc => ?_) h
  rcases OrderedSet.mem_insert_imp hc with rfl | hc
  · exact ⟨t, ht, rfl⟩
  · exact ih hc

namespace IsUserData

/-- **The values that are given are put in their fields**, in a document of their
own. -/
theorem data (h : IsUserData fields) :
    (parsedUpdateData fields).data.InOrder
      ∧ (∀ c ∈ givenValues fields,
        ObjectValue.get (parsedUpdateData fields).data c.fst = some c.snd)
      ∧ ∀ q, (∀ c ∈ givenValues fields, c.fst.Apart q) →
        look (parsedUpdateData fields).data q = look [] q :=
  setFields_spec Fields.inOrder_nil (h.distinct.filterMap_path _) (fun c hc => by
    obtain ⟨f, hf, -, hv⟩ := mem_givenValues.mp hc
    exact h.given f hf c.snd hv)

/-- The transforms of a write have paths that are not empty. -/
theorem path_ne_nil (h : IsUserData fields) : ∀ t ∈ transformsOf fields, t.path ≠ [] := by
  intro t ht
  obtain ⟨f, hf, hpath, -⟩ := mem_transformsOf.mp ht
  exact hpath ▸ h.distinct.ne_nil f.fst (List.mem_map_of_mem hf)

section Written

variable {base d d' : Fields}

/-- Writing puts in each field what is said of it, and changes nothing else. -/
theorem written_spec (h : IsUserData fields) (hbase : base.InOrder) (d : Fields) :
    (written base d fields).InOrder
      ∧ (∀ f ∈ fields, ObjectValue.get (written base d fields) f.fst
        = some (f.snd.apply (ObjectValue.get d f.fst)))
      ∧ ∀ q, (∀ f ∈ fields, f.fst.Apart q) → look (written base d fields) q = look base q := by
  obtain ⟨horder, hget, hrest⟩ := setFields_spec (d := base)
    (l := fields.map (fun f => (f.fst, f.snd.apply (ObjectValue.get d f.fst)))) hbase
    (by rw [List.map_map]; exact h.distinct) (fun c hc => by
      obtain ⟨f, hf, rfl⟩ := List.mem_map.mp hc
      exact f.snd.inOrder_apply (h.given f hf) _)
  exact ⟨horder, fun f hf => hget (f.fst, _) (List.mem_map_of_mem hf),
    fun q hq => hrest q (fun c hc => by
      obtain ⟨f, hf, rfl⟩ := List.mem_map.mp hc
      exact hq f hf)⟩

/-- **A value that is given is the one a write puts** in its field. -/
theorem get_of_mem_givenValues (h : IsUserData fields) (hbase : base.InOrder) (d : Fields)
    {c : FieldPath × Value} (hc : c ∈ givenValues fields) :
    ObjectValue.get (written base d fields) c.fst = some c.snd := by
  obtain ⟨f, hf, hpath, hv⟩ := mem_givenValues.mp hc
  rcases f.snd.given_or_transformation with ⟨v, hv', -, happly⟩ | ⟨t, hnone, -, -⟩
  · rw [← hpath, (h.written_spec hbase d).2.1 f hf, happly, Option.some.inj (hv.symm.trans hv')]
  · exact nomatch hnone.symm.trans hv

/-- **What transforms come to is what is said**, if it is the same of the document that
they are made of. -/
theorem get_of_mem_localTransformResults (h : IsUserData fields) (hbase : base.InOrder)
    (hsame : ∀ f ∈ fields, f.snd.apply (ObjectValue.get d' f.fst)
      = f.snd.apply (ObjectValue.get d f.fst)) :
    ∀ c ∈ localTransformResults (transformsOf fields) d',
      ObjectValue.get (written base d fields) c.fst = c.snd := by
  intro c hc
  obtain ⟨t, ht, rfl⟩ := exists_of_mem_localTransformResults hc
  obtain ⟨f, hf, hpath, ht⟩ := mem_transformsOf.mp ht
  rcases f.snd.given_or_transformation with ⟨v, -, hnone, -⟩ | ⟨u, -, hu, happly⟩
  · exact nomatch hnone.symm.trans ht
  · rw [← hpath, (h.written_spec hbase d).2.1 f hf, ← hsame f hf, ← happly,
      Option.some.inj (hu.symm.trans ht)]

/-- Each field is given a value, or a transform is made of it. -/
theorem mem_givenValues_or_localTransformResults (h : IsUserData fields) (d' : Fields)
    {f : FieldPath × FieldValue} (hf : f ∈ fields) :
    (∃ c ∈ givenValues fields, c.fst = f.fst)
      ∨ ∃ c ∈ localTransformResults (transformsOf fields) d', c.fst = f.fst := by
  rcases f.snd.given_or_transformation with ⟨v, hv, -, -⟩ | ⟨t, -, ht, -⟩
  · exact Or.inl ⟨(f.fst, v), mem_givenValues.mpr ⟨f, hf, rfl, hv⟩, rfl⟩
  · refine Or.inr (List.mem_map.mp ?_)
    rw [(puts_localTransformResults d' h.path_ne_nil).2]
    exact List.mem_map_of_mem (mem_transformsOf (t := ⟨f.fst, t⟩).mpr ⟨f, hf, rfl, ht⟩)

/-- **The transforms of a write come last**: where the values that are given have been
put in a document, what comes of it is what the write says. -/
theorem setAll_localTransformResults (h : IsUserData fields) (hbase : base.InOrder)
    {e : Fields} (he : e.InOrder)
    (hgiven : ∀ q, (∃ c ∈ givenValues fields, ¬ c.fst.Apart q) →
      look e q = look (written base d fields) q)
    (hrest : ∀ q, (∀ f ∈ fields, f.fst.Apart q) → look e q = look base q)
    (hsame : ∀ f ∈ fields, f.snd.apply (ObjectValue.get d' f.fst)
      = f.snd.apply (ObjectValue.get d f.fst)) :
    setAll e (localTransformResults (transformsOf fields) d') = written base d fields := by
  obtain ⟨hw, -, hwrest⟩ := h.written_spec hbase d
  obtain ⟨hresult, hread, hkept⟩ := look_setAll_of_get he
    (puts_localTransformResults d' h.path_ne_nil).1 (h.get_of_mem_localTransformResults hbase hsame)
  refine eq_of_look hresult hw (fun q => ?_)
  by_cases hq : ∃ c ∈ localTransformResults (transformsOf fields) d', ¬ c.fst.Apart q
  · exact hread q hq
  · rw [hkept q (fun c hc => by_contra (fun hnot => hq ⟨c, hc, hnot⟩))]
    by_cases hq' : ∃ c ∈ givenValues fields, ¬ c.fst.Apart q
    · exact hgiven q hq'
    · have hapart : ∀ f ∈ fields, f.fst.Apart q := by
        intro f hf
        by_contra hnot
        rcases h.mem_givenValues_or_localTransformResults d' hf with ⟨c, hc, hp⟩ | ⟨c, hc, hp⟩
        · exact hq' ⟨c, hc, hp ▸ hnot⟩
        · exact hq ⟨c, hc, hp ▸ hnot⟩
      rw [hwrest q hapart, hrest q hapart]

end Written

end IsUserData

/-! ### An update -/

namespace IsUpdateData

/-- The mask has exactly the fields that are given values. -/
theorem mem_fieldMask (h : IsUpdateData fields) {p : FieldPath} :
    p ∈ (parsedUpdateData fields).fieldMask ↔ ∃ c ∈ givenValues fields, c.fst = p := by
  rw [parsedUpdateData]
  show p ∈ List.foldl _ _ _ ↔ _
  rw [FieldMask.mem_foldl_insert, or_iff_right List.not_mem_nil, List.mem_flatMap]
  refine exists_congr (fun c => and_congr_right (fun hc => ?_))
  obtain ⟨f, hf, -, hv⟩ := mem_givenValues.mp hc
  rw [Value.maskPaths, if_pos (h.leaf f hf c.snd hv)]
  simp [eq_comm]

/-- The mutation of an update puts values. -/
theorem putsValues (h : IsUpdateData fields) : (updateData fields).PutsValues := by
  refine ⟨h.data.1, fun p hp => ?_, h.path_ne_nil⟩
  obtain ⟨c, hc, rfl⟩ := h.mem_fieldMask.mp hp
  exact ⟨(h.distinct.filterMap_path _).ne_nil c.fst (List.mem_map_of_mem hc),
    by rw [h.data.2.1 c hc]; exact nofun⟩

/-- **An update makes of a document what it says**, also where the document differs
from another one in its fields, if what it says of them is the same. -/
theorem value_eq (h : IsUpdateData fields) {d d' : Fields} (hd : d.InOrder) (hd' : d'.InOrder)
    (hsame : ∀ f ∈ fields, f.snd.apply (ObjectValue.get d' f.fst)
      = f.snd.apply (ObjectValue.get d f.fst))
    (hrest : ∀ q, (∀ f ∈ fields, f.fst.Apart q) → look d' q = look d q) :
    setAll (setAll d' (getPatch (parsedUpdateData fields).data (parsedUpdateData fields).fieldMask))
        (localTransformResults (transformsOf fields) d')
      = written d d fields := by
  obtain ⟨hdata, hmask, -⟩ := h.putsValues
  obtain ⟨hputs, hpaths⟩ := puts_getPatch hdata hmask
  have hmem : ∀ p, (∃ c ∈ getPatch (parsedUpdateData fields).data
      (parsedUpdateData fields).fieldMask, c.fst = p) ↔ ∃ c ∈ givenValues fields, c.fst = p := by
    intro p
    refine List.mem_map.symm.trans ?_
    rw [hpaths]
    exact h.mem_fieldMask
  have hget : ∀ c ∈ getPatch (parsedUpdateData fields).data (parsedUpdateData fields).fieldMask,
      ObjectValue.get (written d d fields) c.fst = c.snd := by
    intro c hc
    obtain ⟨p, hp, rfl⟩ := List.mem_map.mp hc
    obtain ⟨e, he, rfl⟩ := h.mem_fieldMask.mp (List.mem_filter.mp hp).1
    rw [h.data.2.1 e he, h.get_of_mem_givenValues hd d he]
  obtain ⟨hpatch, hread, hkept⟩ := look_setAll_of_get hd' hputs hget
  refine h.setAll_localTransformResults hd hpatch (fun q hq => ?_) (fun q hq => ?_) hsame
  · obtain ⟨c, hc, hnot⟩ := hq
    obtain ⟨e, he, hpath⟩ := (hmem c.fst).mpr ⟨c, hc, rfl⟩
    exact hread q ⟨e, he, hpath ▸ hnot⟩
  · refine (hkept q (fun c hc => ?_)).trans (hrest q hq)
    obtain ⟨e, he, hpath⟩ := (hmem c.fst).mp ⟨c, hc, rfl⟩
    obtain ⟨f, hf, hpath', -⟩ := mem_givenValues.mp he
    rw [← hpath, ← hpath']
    exact hq f hf

end IsUpdateData

/-! ### Names of the document itself -/

/-- The fields of a write that names them, as paths of one name. -/
def topLevel (us : Update) : List (FieldPath × FieldValue) := us.map (fun u => ([u.fst], u.snd))

/-- Putting a value at the path of a name is setting the name. -/
theorem set_singleton {d : Fields} (hd : d.InOrder) (k : String) (v : Value) :
    ObjectValue.set d [k] v = Fields.set d k v :=
  set_concat hd [] k v

/-- Putting values at the paths of names is setting the names. -/
theorem setFields_map {d : Fields} (hd : d.InOrder) {l : List (String × Value)}
    (hl : ∀ c ∈ l, c.snd.InOrder) :
    setFields d (l.map (fun c => ([c.fst], c.snd)))
      = l.foldl (fun d c => Fields.set d c.fst c.snd) d := by
  induction l generalizing d with
  | nil => rfl
  | cons c l ih =>
    obtain ⟨hc, hl⟩ := List.forall_mem_cons.mp hl
    show setFields (ObjectValue.set d [c.fst] c.snd) _ = _
    rw [set_singleton hd]
    exact ih (hd.set hc c.fst) hl

/-- Fields with different names are apart. -/
theorem FieldPath.apart_singleton {k l : String} (h : k ≠ l) : FieldPath.Apart [k] [l] :=
  ⟨fun hc => h (List.cons_prefix_cons.mp hc).1, fun hc => h (List.cons_prefix_cons.mp hc).1.symm⟩

/-- **Names are fields that are apart.** -/
theorem isUserData_topLevel {us : Update} (hnames : (us.map Prod.fst).Nodup)
    (hgiven : ∀ u ∈ us, ∀ v, u.snd.given = some v → v.InOrder) : IsUserData (topLevel us) := by
  refine ⟨⟨fun p hp => ?_, ?_⟩, fun f hf => ?_⟩
  · obtain ⟨f, hf, rfl⟩ := List.mem_map.mp hp
    obtain ⟨u, -, rfl⟩ := List.mem_map.mp hf
    exact List.cons_ne_nil u.fst []
  · rw [topLevel, List.map_map, show Prod.fst ∘ (fun u : String × FieldValue => ([u.fst], u.snd))
      = (fun k => [k]) ∘ Prod.fst from rfl, ← List.map_map, List.pairwise_map]
    exact List.Pairwise.imp FieldPath.apart_singleton hnames
  · obtain ⟨u, hu, rfl⟩ := List.mem_map.mp hf
    exact hgiven u hu

variable {us : Update}

/-- Reading the path of a name is reading the name. -/
theorem get_singleton (d : Fields) (k : String) : ObjectValue.get d [k] = d.get? k := by
  show (d.get? k).bind (fun w => some w) = _
  cases d.get? k <;> rfl

/-- **A document with names written** takes their values as a write of the store
does. -/
theorem written_topLevel {base d : Fields} (hbase : base.InOrder)
    (hgiven : ∀ u ∈ us, ∀ v, u.snd.given = some v → v.InOrder) :
    written base d (topLevel us)
      = us.foldl (fun acc u => acc.set u.fst (u.snd.apply (d.get? u.fst))) base := by
  have hmap : (topLevel us).map (fun f => (f.fst, f.snd.apply (ObjectValue.get d f.fst)))
      = (us.map (fun u => (u.fst, u.snd.apply (d.get? u.fst)))).map (fun c => ([c.fst], c.snd)) := by
    rw [topLevel, List.map_map, List.map_map]
    exact List.map_congr_left (fun u _ => by
      show ([u.fst], u.snd.apply (ObjectValue.get d [u.fst])) = _
      rw [get_singleton]
      rfl)
  rw [written, hmap, setFields_map hbase, List.foldl_map]
  intro c hc
  obtain ⟨u, hu, rfl⟩ := List.mem_map.mp hc
  exact u.snd.inOrder_apply (hgiven u hu) _

/-- What a document that is set comes to is what an update of its names would. -/
theorem parsedSetData_eq (hgiven : ∀ u ∈ us, ∀ v, u.snd.given = some v → v.InOrder) :
    parsedSetData us = ((parsedUpdateData (topLevel us)).data, transformsOf (topLevel us)) := by
  have hmap : givenValues (topLevel us)
      = (us.filterMap (fun f => f.snd.given.map (fun v => (f.fst, v)))).map
        (fun c => ([c.fst], c.snd)) := by
    rw [givenValues, topLevel, List.filterMap_map, List.map_filterMap]
    refine List.filterMap_congr (fun u _ => ?_)
    show u.snd.given.map _ = (u.snd.given.map _).map _
    rw [Option.map_map]
    rfl
  rw [parsedSetData, parsedUpdateData, hmap, setFields_map Fields.inOrder_nil]
  · rfl
  · intro c hc
    obtain ⟨u, hu, hv⟩ := List.mem_filterMap.mp hc
    obtain ⟨v, hgivenv, rfl⟩ := Option.map_eq_some_iff.mp hv
    exact hgiven u hu v hgivenv

/-- **A document that is set is what the write says**, of nothing: but its transforms
take their values from what was there. -/
theorem setData_value (hnames : (us.map Prod.fst).Nodup)
    (hgiven : ∀ u ∈ us, ∀ v, u.snd.given = some v → v.InOrder) {d d' : Fields}
    (hsame : ∀ f ∈ topLevel us, f.snd.apply (ObjectValue.get d' f.fst)
      = f.snd.apply (ObjectValue.get d f.fst)) :
    setAll (parsedSetData us).fst (localTransformResults (parsedSetData us).snd d')
      = written [] d (topLevel us) := by
  have h := isUserData_topLevel hnames hgiven
  rw [parsedSetData_eq hgiven]
  obtain ⟨hdata, hget, hrest⟩ := h.data
  refine h.setAll_localTransformResults Fields.inOrder_nil hdata (fun q hq => ?_) (fun q hq => ?_)
    hsame
  · obtain ⟨c, hc, hnot⟩ := hq
    exact look_eq_of_get (hget c hc) (h.get_of_mem_givenValues Fields.inOrder_nil d hc) hnot
  · refine hrest q (fun c hc => ?_)
    obtain ⟨f, hf, hpath, -⟩ := mem_givenValues.mp hc
    exact hpath ▸ hq f hf

end Firestore
