import Enmart.Base.Ranges
import Enmart.Firestore.Write

/-!
# The search for products

The lists of products search a field by its beginning. There is no such query in
the store, and `ProductView` asks for a range instead: from the text entered to
the text followed by a `z`. Texts that go on with a `z`, or with a character after
it – a letter of another alphabet, say – begin with the text entered and are
outside.

`search_iff` says that the query is the search by a beginning, over a catalogue,
exactly when no product's field goes on so.
-/

open Firestore Ranges

/-- The field searched. -/
inductive SearchType where
  | code
  | material
  deriving DecidableEq, Repr

/-- The name of the field. -/
def SearchType.field : SearchType → String
  | code => "code"
  | material => "material"

/-- A query of the products. -/
inductive ProductQuery where
  /-- Both conditions on one field. -/
  | range (field isGreaterThanOrEqualTo isLessThan : String)
  | orderBy (field : String)
  deriving DecidableEq, Repr

/-- **The query `ProductView` builds.** -/
def productQuery (search : Bool) (segment : SearchType) (text : String) : ProductQuery :=
  if search then .range segment.field text (text ++ String.singleton 'z')
  else .orderBy "code"

/-- **Whether a query returns a document.** Texts are compared by their bytes, and
a range of texts has no other values. -/
def ProductQuery.Returns (doc : Fields) : ProductQuery → Prop
  | .range field low high => ∃ s, asString (doc.get? field) = some s
      ∧ utf8 low ≤ utf8 s ∧ utf8 s < utf8 high
  | .orderBy field => (doc.get? field).isSome

/-- **The field of a product starts with a text.** -/
def StartsWith (segment : SearchType) (text : String) (doc : Fields) : Prop :=
  ∃ s, asString (doc.get? segment.field) = some s ∧ text.toList <+: s.toList

/-- The field goes on after a text, if it does, with a character before `z`. -/
def GoesOnBelow (segment : SearchType) (text : String) (doc : Fields) : Prop :=
  ∀ s, asString (doc.get? segment.field) = some s →
    ∀ c, text.toList ++ [c] <+: s.toList → c.toNat < 'z'.toNat

/-- What a search returns starts with the text and goes on below. -/
theorem returns_productQuery_iff (segment : SearchType) (text : String) (doc : Fields) :
    (productQuery true segment text).Returns doc
      ↔ StartsWith segment text doc ∧ GoesOnBelow segment text doc := by
  have hquery : (productQuery true segment text).Returns doc
      ↔ ∃ s, asString (doc.get? segment.field) = some s
        ∧ text.toList <+: s.toList ∧ ∀ c, text.toList ++ [c] <+: s.toList →
          c.toNat < 'z'.toNat :=
    exists_congr (fun s => and_congr_right (fun _ => utf8_mem_range_iff (by decide)))
  rw [hquery]
  constructor
  · rintro ⟨s, hs, hstart, hbelow⟩
    refine ⟨⟨s, hs, hstart⟩, fun s' hs' => ?_⟩
    obtain rfl := Option.some.inj (hs.symm.trans hs')
    exact hbelow
  · rintro ⟨⟨s, hs, hstart⟩, hbelow⟩
    exact ⟨s, hs, hstart, hbelow s hs⟩

/-- **When the search is the search by a beginning.** Of any catalogue, any text
and either field, a search returns the products whose field starts with the text
and no others – exactly when no product's field goes on, after the text, with a
`z` or a character after it. -/
theorem search_iff (products : Collection) (segment : SearchType) (text : String) :
    (∀ key doc, products key = some doc →
        ((productQuery true segment text).Returns doc ↔ StartsWith segment text doc))
      ↔ ∀ key doc, products key = some doc → GoesOnBelow segment text doc := by
  refine forall₃_congr (fun key doc hdoc => ?_)
  rw [returns_productQuery_iff]
  constructor
  · intro h s hs c hc
    have hstart : StartsWith segment text doc :=
      ⟨s, hs, (List.prefix_append _ _).trans hc⟩
    exact (h.mpr hstart).2 s hs c hc
  · exact fun hbelow => and_iff_left hbelow

/-- **A product the search misses**: `az` starts with `a`. -/
theorem missed_by_search :
    ¬ ∀ (products : Collection) (segment : SearchType) (text : String), text ≠ "" →
      ∀ key doc, products key = some doc →
        ((productQuery true segment text).Returns doc ↔ StartsWith segment text doc) := by
  intro h
  have hfound := h (Function.update (fun _ => none) "p" (some [("code", .string "az")])) .code
    "a" (by decide) "p" _ (Function.update_self ..)
  have hstart : StartsWith .code "a" [("code", .string "az")] := ⟨"az", rfl, by decide⟩
  obtain ⟨-, hbelow⟩ := (returns_productQuery_iff _ _ _).mp (hfound.mpr hstart)
  exact absurd (hbelow "az" rfl 'z' (by decide)) (by decide)
