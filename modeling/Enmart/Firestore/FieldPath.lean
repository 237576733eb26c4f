import Enmart.Firestore.ObjectValue

/-!
# Fields within fields

A field of a map within the document is named by a path. A document is read along a
path, and changed where a path ends, the maps on the way to it being made where they
are missing (`ObjectValue.inParentMap`).

What is at the end of every path determines the document (`Value.eq_of_look`), so a
change is described by what it makes each path read (`ObjectValue.look_set`).
-/

namespace Firestore

/-- A path is the list of the names on the way to a field. -/
abbrev FieldPath := List String

/-- Paths are compared name by name. -/
abbrev FieldPath.Before : FieldPath → FieldPath → Prop := List.Lex Firestore.Before

instance : IsStrictTotalOrder FieldPath FieldPath.Before :=
  { isStrictWeakOrder_of_isOrderConnected with }

/-- A path does not come before a path that it begins with. -/
theorem FieldPath.not_before_above {p q : FieldPath} (h : p <+: q) : ¬ Before q p := by
  obtain ⟨r, rfl⟩ := h
  induction p with
  | nil => exact nofun
  | cons k p ih =>
    intro hlt
    cases hlt with
    | rel h => exact irrefl_of Firestore.Before k h
    | cons h => exact ih h

/-! ## What is at the end of a path -/

/-- The value that a name has in a map; what is no map has no names. -/
def findEntry (v : Value) (segment : String) : Option Value :=
  match v with
  | .map fs => Fields.get? fs segment
  | _ => none

/-- The value at the end of a path, if the path leads to one. -/
def Value.get (v : Value) : FieldPath → Option Value
  | [] => some v
  | segment :: path => (findEntry v segment).bind (fun w => w.get path)

/-- Following a path is following its first part and then the rest from there. -/
theorem Value.get_append (v : Value) (p q : FieldPath) :
    v.get (p ++ q) = (v.get p).bind (fun w => w.get q) := by
  induction p generalizing v with
  | nil => rfl
  | cons k p ih =>
    rw [List.cons_append, get, get, Option.bind_assoc]
    exact congrArg _ (funext ih)

/-- What there can be at the end of a path: nothing, a map, or a value that is no
map. -/
inductive Kind where
  | absent
  | map
  /-- A value that is no map. -/
  | leaf (v : Value)

/-- The kind of a value that may be missing. -/
def Kind.of : Option Value → Kind
  | none => .absent
  | some (.map _) => .map
  | some v => .leaf v

/-- The kind of what a path leads to in a value. -/
def Value.look (v : Value) (path : FieldPath) : Kind := Kind.of (v.get path)

/-- **A value is in order** when the maps in it, outside arrays, have their
entries in the order of their names. -/
inductive Value.InOrder : Value → Prop where
  | scalar (s : Scalar) : InOrder (.scalar s)
  | array (vs : List Value) : InOrder (.array vs)
  | map {fs : Fields} (h : fs.Sorted) (hfs : ∀ k v, Fields.get? fs k = some v → v.InOrder) :
    InOrder (.map fs)

/-- A document is in order when it is so as a map. -/
abbrev Fields.InOrder (d : Fields) : Prop := (Value.map d).InOrder

/-- The entries of a document in order are sorted by name. -/
theorem Fields.InOrder.sorted {d : Fields} (h : d.InOrder) : d.Sorted := by
  cases h with
  | map h _ => exact h

/-- Each field of a document in order is in order. -/
theorem Fields.InOrder.of_get? {d : Fields} (h : d.InOrder) {k : String} {v : Value}
    (hk : d.get? k = some v) : v.InOrder := by
  cases h with
  | map _ hfs => exact hfs k v hk

/-- A map in order is determined by what its names read. -/
theorem Fields.ext {d e : Fields} (hd : d.Sorted) (he : e.Sorted)
    (h : ∀ k, d.get? k = e.get? k) : d = e :=
  (Fields.sorted_iff.mp hd).ext (Fields.sorted_iff.mp he)
    (fun ⟨k, v⟩ => by rw [mem_iff_get? hd, mem_iff_get? he, h])

/-- A path into a map starts with one of its names and goes on in the value of
that name. -/
theorem Value.look_map_cons (d : Fields) (k : String) (p : FieldPath) :
    (Value.map d).look (k :: p) = (d.get? k).elim .absent (fun v => v.look p) := by
  rw [look, get]
  show Kind.of ((d.get? k).bind _) = _
  cases d.get? k with
  | none => rfl
  | some v => rfl

/-- The empty path leads to the value itself, which is there. -/
theorem Value.look_nil_ne_absent (v : Value) : v.look [] ≠ .absent := by
  cases v <;> exact nofun

/-- A path leads to nothing in a value that is no map. -/
theorem Value.look_cons_of_not_map {v : Value} (h : ∀ fs, v ≠ .map fs) (k : String)
    (p : FieldPath) : v.look (k :: p) = .absent := by
  cases v with
  | map fs => exact absurd rfl (h fs)
  | scalar s => rfl
  | array vs => rfl

/-- **Values in order are equal if every path reads the same in them.** -/
theorem Value.eq_of_look {v w : Value} (hv : v.InOrder) (hw : w.InOrder)
    (h : ∀ p, v.look p = w.look p) : v = w := by
  induction hv generalizing w with
  | scalar s =>
    cases hw with
    | scalar t => exact Kind.leaf.inj (h [])
    | array ws => exact Kind.leaf.inj (h [])
    | map _ _ => exact nomatch h []
  | array vs =>
    cases hw with
    | scalar t => exact Kind.leaf.inj (h [])
    | array ws => exact Kind.leaf.inj (h [])
    | map _ _ => exact nomatch h []
  | @map fs hfs _ ih =>
    cases hw with
    | scalar t => exact nomatch h []
    | array ws => exact nomatch h []
    | @map gs hgs hgs' =>
      refine congrArg Value.map (Fields.ext hfs hgs (fun k => ?_))
      have hk := fun p => h (k :: p)
      simp only [look_map_cons] at hk
      cases hf : Fields.get? fs k with
      | none =>
        cases hg : Fields.get? gs k with
        | none => rfl
        | some w =>
          rw [hf, hg] at hk
          exact absurd (hk []).symm w.look_nil_ne_absent
      | some v =>
        cases hg : Fields.get? gs k with
        | none =>
          rw [hf, hg] at hk
          exact absurd (hk []) v.look_nil_ne_absent
        | some w =>
          rw [hf, hg] at hk
          rw [ih k v hf (hgs' k w hg) hk]

/-! ## Changing what is at the end of a path -/

/-- The map in which the entry of a name has another value, in the same place. -/
def Fields.replace (d : Fields) (k : String) (v : Value) : Fields :=
  d.map (fun f => if f.fst = k then (k, v) else f)

namespace ObjectValue

/-- The value at the end of a path. -/
def get (d : Fields) (path : FieldPath) : Option Value := (Value.map d).get path

/-- **A map within the document, changed.** The maps on the way to it are made where
there are none. -/
def inParentMap (change : Fields → Fields) : FieldPath → Fields → Fields
  | [], d => change d
  | segment :: path, d =>
    match d.get? segment with
    | some (.map fs) => d.replace segment (.map (inParentMap change path fs))
    -- what is no map becomes one
    | some _ => d.replace segment (.map (inParentMap change path []))
    | none =>
      (applyChanges d [(segment, .map [])] []).replace segment (.map (inParentMap change path []))

/-- The document with a value put at the end of a path. -/
def set (d : Fields) (path : FieldPath) (v : Value) : Fields :=
  inParentMap (fun parent => applyChanges parent [(path.getLastD "", v)] []) path.dropLast d

/-- The document without what is at the end of a path. -/
def delete (d : Fields) : FieldPath → Fields
  | [] => d
  | [segment] => applyChanges d [] [segment]
  | segment :: path =>
    match d.get? segment with
    | some (.map fs) => d.replace segment (.map (delete fs path))
    | _ => d

end ObjectValue

/-- The empty document is in order. -/
theorem Fields.inOrder_nil : Fields.InOrder [] :=
  .map List.Pairwise.nil (fun _ _ h => nomatch h)

/-- A document of one field is in order if the value of the field is. -/
theorem Fields.inOrder_singleton (k : String) {v : Value} (hv : v.InOrder) :
    Fields.InOrder [(k, v)] := by
  refine .map (List.pairwise_singleton _ _) (fun l w h => ?_)
  rw [get?_cons] at h
  split at h
  · exact Option.some.inj h ▸ hv
  · exact absurd h.symm (Option.some_ne_none w)

/-- The fields of a value that may be missing are in order if the value is. -/
theorem Fields.InOrder.ofValue {v : Option Value} (h : ∀ w, v = some w → w.InOrder) :
    (Fields.ofValue v).InOrder := by
  unfold Fields.ofValue
  split
  · exact h _ rfl
  · exact inOrder_nil

/-- Setting a field keeps a document in order. -/
theorem Fields.InOrder.set {d : Fields} (hd : d.InOrder) {v : Value} (hv : v.InOrder) (k : String) :
    (Fields.set d k v).InOrder := by
  refine .map (hd.sorted.set k v) (fun l w hl => ?_)
  rw [get?_set] at hl
  split at hl
  · exact Option.some.inj hl ▸ hv
  · exact hd.of_get? hl

/-- Of two values set at one name the second stays. -/
theorem Fields.set_set {d : Fields} (hd : d.Sorted) (k : String) (v w : Value) :
    (d.set k v).set k w = d.set k w := by
  refine ext ((hd.set k v).set k w) (hd.set k w) (fun l => ?_)
  rw [get?_set, get?_set, get?_set]
  split <;> rfl

/-- A name that reads a value is among the names of the document. -/
theorem Fields.mem_of_get? {d : Fields} (hd : d.Sorted) {k : String} {v : Value}
    (h : d.get? k = some v) : k ∈ d.map Prod.fst :=
  List.mem_map_of_mem ((mem_iff_get? hd).mpr h)

/-- Replacing the entry of a name that is there is setting it. -/
theorem Fields.replace_eq_set {d : Fields} (hd : d.Sorted) {k : String} {v : Value}
    (h : d.get? k = some v) (w : Value) : d.replace k w = d.set k w :=
  (set_of_mem hd w (mem_of_get? hd h)).symm

/-- **Deleting keys that are not there changes nothing**: the loop only puts the
entries. -/
theorem applyChanges_of_absent {source upserts : Fields} {deletes : List String}
    (hsource : source.Sorted) (hupserts : upserts.Sorted)
    (hdeletes : OrderedSet.Ordered Before id deletes)
    (habsent : ∀ k ∈ deletes, source.get? k = none) :
    applyChanges source upserts deletes = source.patch (Fields.values upserts) := by
  have hnot : ∀ k ∈ deletes, k ∉ source.map Prod.fst := by
    intro k hk hks
    obtain ⟨⟨l, w⟩, hf, rfl⟩ := List.mem_map.mp hks
    exact absurd ((Fields.mem_iff_get? hsource).mp hf) (by rw [habsent l hk]; exact nofun)
  rw [(applyChanges_eq_changed_iff hsource hupserts hdeletes).mpr
    (fun e he _ _ hdel => absurd (List.mem_map_of_mem he) (hnot e.fst hdel)), Fields.changed,
    List.filter_eq_self.mpr]
  exact fun f hf => decide_eq_true (fun hdel => hnot f.fst hdel (List.mem_map_of_mem hf))

/-- Putting one entry by the loop is setting it. -/
theorem applyChanges_singleton {source : Fields} (hsource : source.Sorted) (k : String)
    (v : Value) : applyChanges source [(k, v)] [] = source.set k v :=
  applyChanges_of_absent hsource (List.pairwise_singleton _ _) List.Pairwise.nil
    (fun _ h => absurd h List.not_mem_nil)

namespace ObjectValue

/-- The kind of what a path leads to in a document. -/
abbrev look (d : Fields) (path : FieldPath) : Kind := (Value.map d).look path

/-- The fields of the map that a path leads to; there are none where it leads to
no map. -/
def mapAt (d : Fields) (path : FieldPath) : Fields := Fields.ofValue (get d path)

/-- The map at a path is found name by name. -/
theorem mapAt_cons (d : Fields) (k : String) (p : FieldPath) :
    mapAt d (k :: p) = mapAt (Fields.ofValue (d.get? k)) p := by
  show Fields.ofValue ((d.get? k).bind (fun w => w.get p)) = _
  cases d.get? k with
  | none => cases p <;> rfl
  | some v => cases v <;> cases p <;> rfl

/-- **A map within the document is set in the map that it is in.** -/
theorem inParentMap_cons {d : Fields} (hd : d.Sorted) (change : Fields → Fields) (k : String)
    (p : FieldPath) : inParentMap change (k :: p) d
      = d.set k (.map (inParentMap change p (Fields.ofValue (d.get? k)))) := by
  rw [inParentMap]
  cases hk : d.get? k with
  | none =>
    show Fields.replace (applyChanges d _ []) k _ = _
    rw [applyChanges_singleton hd, Fields.replace_eq_set (hd.set k _)
      (by rw [Fields.get?_set, if_pos rfl]), Fields.set_set hd]
    rfl
  | some v =>
    cases v with
    | map fs => exact Fields.replace_eq_set hd hk _
    | scalar s => exact Fields.replace_eq_set hd hk _
    | array vs => exact Fields.replace_eq_set hd hk _

/-- A path of one name leads to nothing exactly when the document lacks the name.
-/
theorem look_singleton (d : Fields) (k : String) : look d [k] = .absent ↔ d.get? k = none := by
  rw [look, Value.look_map_cons]
  cases d.get? k with
  | none => exact iff_of_true rfl rfl
  | some v => exact iff_of_false v.look_nil_ne_absent nofun

/-- Setting a field changes what is read under its name, and nothing else. -/
theorem look_field_set (d : Fields) (k : String) (v : Value) (l : String) (q : FieldPath) :
    look (d.set k v) (l :: q) = if l = k then v.look q else look d (l :: q) := by
  rw [look, look, Value.look_map_cons, Value.look_map_cons, Fields.get?_set]
  split <;> rfl

variable {change : Fields → Fields} {d : Fields}

/-- The fields of a map in a document in order are in order. -/
theorem inOrder_field (hd : d.InOrder) (k : String) : (Fields.ofValue (d.get? k)).InOrder :=
  Fields.InOrder.ofValue (fun _ h => hd.of_get? h)

/-- The map that is changed is in order. -/
theorem inOrder_mapAt (hd : d.InOrder) (p : FieldPath) : (mapAt d p).InOrder := by
  induction p generalizing d with
  | nil => exact hd
  | cons k p ih =>
    rw [mapAt_cons]
    exact ih (inOrder_field hd k)

/-- A change that keeps the order of a map keeps the order of the document. -/
theorem inOrder_inParentMap {p : FieldPath} (hd : d.InOrder)
    (hchange : (change (mapAt d p)).InOrder) : (inParentMap change p d).InOrder := by
  induction p generalizing d with
  | nil => exact hchange
  | cons k p ih =>
    rw [inParentMap_cons hd.sorted]
    rw [mapAt_cons] at hchange
    exact hd.set (ih (inOrder_field hd k) hchange) k

/-- Reading within a field is reading the document with one more name in front. -/
theorem look_field (d : Fields) (k l : String) (q : FieldPath) :
    look (Fields.ofValue (d.get? k)) (l :: q) = look d (k :: l :: q) := by
  rw [look, look, Value.look_map_cons _ k]
  cases d.get? k with
  | none => rfl
  | some v => cases v <;> rfl

/-- Below the map that is changed, what is read is what the change makes of it. -/
theorem look_inParentMap_append (hd : d.InOrder) (p q : FieldPath) :
    look (inParentMap change p d) (p ++ q) = look (change (mapAt d p)) q := by
  induction p generalizing d with
  | nil => rfl
  | cons k p ih =>
    rw [inParentMap_cons hd.sorted, List.cons_append, look_field_set, if_pos rfl, mapAt_cons]
    exact ih (inOrder_field hd k)

/-- On the way to the map that is changed there are maps only. -/
theorem look_inParentMap_above (hd : d.InOrder) {p q : FieldPath} (h : q <+: p) :
    look (inParentMap change p d) q = .map := by
  induction p generalizing d q with
  | nil =>
    obtain rfl := List.prefix_nil.mp h
    rfl
  | cons k p ih =>
    cases q with
    | nil => rfl
    | cons l q =>
      obtain ⟨rfl, hq⟩ := List.cons_prefix_cons.mp h
      rw [inParentMap_cons hd.sorted, look_field_set, if_pos rfl]
      exact ih (inOrder_field hd _) hq

/-- A path that neither leads to the map that is changed nor goes through it reads
as before. -/
theorem look_inParentMap_apart (hd : d.InOrder) {p q : FieldPath} (h : ¬ p <+: q)
    (h' : ¬ q <+: p) : look (inParentMap change p d) q = look d q := by
  induction p generalizing d q with
  | nil => exact absurd List.nil_prefix h
  | cons k p ih =>
    cases q with
    | nil => exact absurd List.nil_prefix h'
    | cons l q =>
      rw [inParentMap_cons hd.sorted, look_field_set]
      by_cases hl : l = k
      · subst hl
        rw [List.cons_prefix_cons] at h h'
        rw [if_pos rfl]
        cases q with
        | nil => exact absurd ⟨rfl, List.nil_prefix⟩ h'
        | cons m q =>
          rw [← look_field]
          exact ih (inOrder_field hd l) (fun hc => h ⟨rfl, hc⟩) (fun hc => h' ⟨rfl, hc⟩)
      · rw [if_neg hl]

/-- Reading within the map at a path is reading the document with the path in
front. -/
theorem look_mapAt (d : Fields) (p : FieldPath) (k : String) (q : FieldPath) :
    look (mapAt d p) (k :: q) = look d (p ++ k :: q) := by
  induction p generalizing d with
  | nil => rfl
  | cons l p ih =>
    rw [mapAt_cons, ih, List.cons_append]
    cases p with
    | nil => exact look_field d l k q
    | cons m p => exact look_field d l m (p ++ k :: q)

/-- Changes that do the same to the map that is there do the same to the document.
-/
theorem inParentMap_congr (hd : d.InOrder) {change' : Fields → Fields} {p : FieldPath}
    (h : change (mapAt d p) = change' (mapAt d p)) :
    inParentMap change p d = inParentMap change' p d := by
  induction p generalizing d with
  | nil => exact h
  | cons k p ih =>
    rw [mapAt_cons] at h
    rw [inParentMap_cons hd.sorted, inParentMap_cons hd.sorted, ih (inOrder_field hd k) h]

/-- **Two changes of one map**, one after the other, are one change. -/
theorem inParentMap_inParentMap (hd : d.InOrder) {change' : Fields → Fields} {p : FieldPath}
    (hchange : (change (mapAt d p)).InOrder) :
    inParentMap change' p (inParentMap change p d)
      = inParentMap (fun m => change' (change m)) p d := by
  induction p generalizing d with
  | nil => rfl
  | cons k p ih =>
    rw [mapAt_cons] at hchange
    have hfield := inOrder_field hd k
    rw [inParentMap_cons hd.sorted, inParentMap_cons (hd.sorted.set k _),
      inParentMap_cons hd.sorted, Fields.get?_set, if_pos rfl, Fields.set_set hd.sorted]
    show Fields.set d k (.map (inParentMap change' p (inParentMap change p _))) = _
    rw [ih hfield hchange]

/-- Setting a value at a path is setting its last name in the map the rest of the
path leads to. -/
theorem set_concat (hd : d.InOrder) (p : FieldPath) (k : String) (v : Value) :
    set d (p ++ [k]) v = inParentMap (fun m => m.set k v) p d := by
  rw [set, List.dropLast_concat, List.getLastD_concat]
  exact inParentMap_congr hd (applyChanges_singleton (inOrder_mapAt hd p).sorted k v)

section Set

variable {path q : FieldPath} {v : Value}

/-- A path that is not empty ends with a name. -/
theorem exists_concat (hpath : path ≠ []) : ∃ p k, path = p ++ [k] :=
  ⟨path.dropLast, path.getLast hpath, (List.dropLast_append_getLast hpath).symm⟩

/-- Setting a value in order keeps a document in order. -/
theorem inOrder_set (hd : d.InOrder) (hv : v.InOrder) (hpath : path ≠ []) :
    (set d path v).InOrder := by
  obtain ⟨p, k, rfl⟩ := exists_concat hpath
  rw [set_concat hd]
  exact inOrder_inParentMap hd ((inOrder_mapAt hd p).set hv k)

/-- **A value that is set is read back** at its path. -/
theorem look_set_append (hd : d.InOrder) (hpath : path ≠ []) (q : FieldPath) :
    look (set d path v) (path ++ q) = v.look q := by
  obtain ⟨p, k, rfl⟩ := exists_concat hpath
  rw [set_concat hd, List.append_assoc, look_inParentMap_append hd, List.cons_append,
    look_field_set, if_pos rfl]
  rfl

/-- On the way to a value that is set there are maps only. -/
theorem look_set_above (hd : d.InOrder) (h : q <+: path) (hne : q ≠ path) :
    look (set d path v) q = .map := by
  obtain ⟨p, k, rfl⟩ : ∃ p k, path = p ++ [k] := exists_concat
    (fun hpath => hne (by rw [hpath] at h ⊢; exact List.prefix_nil.mp h))
  rw [set_concat hd]
  exact look_inParentMap_above hd ((List.prefix_concat_iff.mp h).resolve_left hne)

/-- **Setting a value leaves the other paths alone**, but for those above it and
below it. -/
theorem look_set_apart (hd : d.InOrder) (h : ¬ path <+: q) (h' : ¬ q <+: path) :
    look (set d path v) q = look d q := by
  obtain ⟨p, k, rfl⟩ : ∃ p k, path = p ++ [k] := exists_concat
    (fun hpath => h (by rw [hpath]; exact List.nil_prefix))
  rw [set_concat hd]
  by_cases hp : p <+: q
  · obtain ⟨r, rfl⟩ := hp
    cases r with
    | nil => exact absurd (by rw [List.append_nil]; exact List.prefix_append p [k]) h'
    | cons l r =>
      rw [look_inParentMap_append hd, look_field_set, if_neg, look_mapAt]
      rintro rfl
      exact h ⟨r, by rw [List.append_assoc]; rfl⟩
  · exact look_inParentMap_apart hd hp
      (fun hqp => h' (hqp.trans (List.prefix_append p [k])))

end Set

end ObjectValue

end Firestore
