import Mathlib

/-!
# Ranges of texts

Texts are compared as the rows of bytes that encode them, lexicographically.
A range that begins at a row and ends before the row with one more element holds
some of the rows that begin with it and no others: those that end there or go on
with a smaller element (`Ranges.mem_range_iff`). No row with the beginning that
goes on with that element, or a larger one, is in the range.

For texts this is a statement about characters: the bytes of one text begin with
those of another exactly when its characters do (`Ranges.utf8_prefix_iff`), and
a character is encoded from a byte below an ASCII one exactly when it comes
before it (`Ranges.utf8_lt_singleton_iff`).
-/

namespace Ranges

/-! ## Rows -/

section Rows

variable {α : Type} [LinearOrder α]

/-- A row comes before the row of one element if it is empty or begins with a
smaller one. -/
theorem lt_singleton_iff {r : List α} {z : α} : r < [z] ↔ ∀ c ∈ r.head?, c < z := by
  cases r with
  | nil => exact iff_of_true (List.nil_lt_cons z []) (fun _ hc => absurd hc (by simp))
  | cons c r =>
    rw [List.cons_lt_cons_iff]
    constructor
    · rintro (hlt | ⟨-, hr⟩) c' hc'
      · obtain rfl := Option.some.inj hc'
        exact hlt
      · exact absurd hr (List.not_lt_nil r)
    · exact fun h => Or.inl (h c rfl)

/-- **The range of a beginning** holds the rows that begin with it and go on, if
they do, with an element before the one that ends the range. -/
theorem mem_range_iff {t s : List α} {z : α} :
    (t ≤ s ∧ s < t ++ [z]) ↔ ∃ r, s = t ++ r ∧ r < [z] := by
  induction t generalizing s with
  | nil =>
    constructor
    · rintro ⟨-, hs⟩
      exact ⟨s, rfl, hs⟩
    · rintro ⟨r, rfl, hr⟩
      exact ⟨not_lt.mp (List.not_lt_nil _), hr⟩
  | cons a t ih =>
    cases s with
    | nil =>
      refine iff_of_false (fun h => ?_) (fun ⟨r, hr, _⟩ => absurd hr (by simp))
      exact absurd (List.nil_lt_cons a t) (not_lt.mpr h.1)
    | cons b s =>
      rw [← not_lt, List.cons_append, List.cons_lt_cons_iff, List.cons_lt_cons_iff]
      constructor
      · rintro ⟨hle, hlt | ⟨rfl, hlt⟩⟩
        · exact absurd (Or.inl hlt) hle
        · have hts : t ≤ s := not_lt.mp (fun hc => hle (Or.inr ⟨rfl, hc⟩))
          obtain ⟨r, rfl, hr⟩ := ih.mp ⟨hts, hlt⟩
          exact ⟨r, rfl, hr⟩
      · rintro ⟨r, hs, hr⟩
        obtain ⟨rfl, rfl⟩ := List.cons.inj hs
        obtain ⟨hts, hlt⟩ := ih.mpr ⟨r, rfl, hr⟩
        refine ⟨?_, Or.inr ⟨rfl, hlt⟩⟩
        rintro (hc | ⟨-, hc⟩)
        · exact lt_irrefl b hc
        · exact absurd hc (not_lt.mpr hts)

end Rows

/-! ## Texts -/

/-- The bytes that encode a character. -/
def utf8Char (c : Char) : List ℕ := (String.utf8EncodeChar c).map UInt8.toNat

/-- **The bytes that encode a text**, as numbers. -/
def utf8 (s : String) : List ℕ := s.toList.flatMap utf8Char

theorem utf8_append (s t : String) : utf8 (s ++ t) = utf8 s ++ utf8 t := by
  rw [utf8, String.toList_append, List.flatMap_append]
  rfl

theorem utf8Char_ne_nil (c : Char) : utf8Char c ≠ [] := fun h =>
  String.utf8EncodeChar_ne_nil (List.map_eq_nil_iff.mp h)

/-- **The first byte of a character** below 128 is the character itself, so it
compares with an ASCII character as the character does. -/
theorem head_utf8Char_lt_iff {c : Char} {n z : ℕ} (hz : z ≤ 127) (hn : n ∈ (utf8Char c).head?) :
    n < z ↔ c.toNat < z := by
  have hc : c.val.toNat = c.toNat := rfl
  have hbyte : ∀ k : ℕ, (UInt8.ofNat k).toNat = k % 256 := fun k => UInt8.toNat_ofNat'
  simp only [utf8Char, String.utf8EncodeChar, hc] at hn
  split at hn
  · rw [List.map_cons, List.head?_cons, hbyte] at hn
    obtain rfl := Option.some.inj hn
    omega
  · split at hn
    · rw [List.map_cons, List.head?_cons, hbyte] at hn
      obtain rfl := Option.some.inj hn
      omega
    · split at hn
      · rw [List.map_cons, List.head?_cons, hbyte] at hn
        obtain rfl := Option.some.inj hn
        omega
      · rw [List.map_cons, List.head?_cons, hbyte] at hn
        obtain rfl := Option.some.inj hn
        omega

/-- **No character's bytes begin another's**: decoding tells which it is. -/
theorem eq_of_prefix_utf8Char {c d : Char} (h : utf8Char c <+: utf8Char d) : c = d := by
  have hbytes : String.utf8EncodeChar c <+: String.utf8EncodeChar d :=
    (List.prefix_map_iff_of_injective (fun _ _ => UInt8.toNat_inj.mp)).mp h
  obtain ⟨r, hr⟩ := hbytes
  have hc := ByteArray.utf8DecodeChar?_utf8EncodeChar_append (b := r.toByteArray) (c := c)
  have hd := ByteArray.utf8DecodeChar?_utf8EncodeChar_append (b := [].toByteArray) (c := d)
  rw [← List.toByteArray_append, hr] at hc
  rw [← List.toByteArray_append, List.append_nil] at hd
  exact Option.some.inj (hc.symm.trans hd)

/-- A row of bytes begins with those of one character at most. -/
theorem utf8Char_append_inj {c d : Char} {x y : List ℕ}
    (h : utf8Char c ++ x = utf8Char d ++ y) : c = d := by
  have hc : utf8Char c <+: utf8Char d ++ y := ⟨x, h⟩
  have hd : utf8Char d <+: utf8Char d ++ y := ⟨y, rfl⟩
  rcases List.prefix_or_prefix_of_prefix hc hd with hcd | hdc
  · exact eq_of_prefix_utf8Char hcd
  · exact (eq_of_prefix_utf8Char hdc).symm

/-- **The bytes of a text begin with those of another** exactly when its
characters do. -/
theorem utf8_prefix_iff {t s : String} : utf8 t <+: utf8 s ↔ t.toList <+: s.toList := by
  have hlists : ∀ cs ds : List Char, cs.flatMap utf8Char <+: ds.flatMap utf8Char ↔ cs <+: ds := by
    intro cs
    induction cs with
    | nil => exact fun ds => iff_of_true List.nil_prefix List.nil_prefix
    | cons c cs ih =>
      intro ds
      cases ds with
      | nil =>
        refine iff_of_false (fun h => ?_) (fun h => absurd (List.prefix_nil.mp h) (by simp))
        have hnil := List.prefix_nil.mp h
        rw [List.flatMap_cons, List.append_eq_nil_iff] at hnil
        exact utf8Char_ne_nil c hnil.1
      | cons d ds =>
        rw [List.flatMap_cons, List.flatMap_cons, List.cons_prefix_cons]
        constructor
        · rintro ⟨x, hx⟩
          rw [List.append_assoc] at hx
          obtain rfl := utf8Char_append_inj hx
          exact ⟨rfl, (ih ds).mp ⟨x, List.append_cancel_left hx⟩⟩
        · rintro ⟨rfl, h⟩
          exact (List.prefix_append_right_inj _).mpr ((ih ds).mpr h)
  exact hlists t.toList s.toList

/-- The rest of a text is encoded from a byte below an ASCII character exactly
when it is empty or begins with a character before it. -/
theorem flatMap_utf8Char_lt_singleton_iff {cs : List Char} {z : ℕ} (hz : z ≤ 127) :
    cs.flatMap utf8Char < [z] ↔ ∀ c ∈ cs.head?, c.toNat < z := by
  rw [lt_singleton_iff]
  cases cs with
  | nil => exact iff_of_true (fun _ hn => absurd hn (by simp)) (fun _ hc => absurd hc (by simp))
  | cons c cs =>
    obtain ⟨n, ns, hbytes⟩ := List.exists_cons_of_ne_nil (utf8Char_ne_nil c)
    have hhead : n < z ↔ c.toNat < z :=
      head_utf8Char_lt_iff hz (by rw [hbytes]; rfl)
    rw [List.flatMap_cons, hbytes]
    constructor
    · intro h c' hc'
      obtain rfl := Option.some.inj hc'
      exact hhead.mp (h n rfl)
    · intro h n' hn'
      obtain rfl := Option.some.inj hn'
      exact hhead.mpr (h c rfl)

/-- **The texts that begin with a text** and end there, or go on with a character
before an ASCII one, are those between the two, compared by their bytes. -/
theorem utf8_mem_range_iff {t s : String} {z : Char} (hz : z.toNat ≤ 127) :
    (utf8 t ≤ utf8 s ∧ utf8 s < utf8 (t ++ String.singleton z))
      ↔ t.toList <+: s.toList ∧ ∀ c, t.toList ++ [c] <+: s.toList → c.toNat < z.toNat := by
  have hend : utf8 (String.singleton z) = [z.toNat] := by
    have hbyte : (UInt8.ofNat z.toNat).toNat = z.toNat := by
      rw [UInt8.toNat_ofNat']
      omega
    have hval : z.val.toNat = z.toNat := rfl
    rw [utf8, String.toList_singleton, List.flatMap_singleton, utf8Char, String.utf8EncodeChar]
    simp only [hval, if_pos hz, List.map_cons, List.map_nil, hbyte]
  rw [utf8_append, hend, mem_range_iff]
  constructor
  · rintro ⟨r, hs, hr⟩
    obtain ⟨cs, hcs⟩ := utf8_prefix_iff.mp ⟨r, hs.symm⟩
    refine ⟨⟨cs, hcs⟩, fun c hc => ?_⟩
    have hrest : r = cs.flatMap utf8Char := by
      rw [utf8, utf8, ← hcs, List.flatMap_append] at hs
      exact (List.append_cancel_left hs).symm
    rw [hrest, flatMap_utf8Char_lt_singleton_iff hz] at hr
    rw [← hcs, List.prefix_append_right_inj] at hc
    obtain ⟨ds, rfl⟩ := hc
    exact hr c rfl
  · rintro ⟨⟨cs, hcs⟩, hnext⟩
    refine ⟨cs.flatMap utf8Char, ?_, (flatMap_utf8Char_lt_singleton_iff hz).mpr (fun c hc => ?_)⟩
    · rw [utf8, utf8, ← hcs, List.flatMap_append]
    · obtain ⟨ds, rfl⟩ := List.head?_eq_some_iff.mp hc
      exact hnext c ⟨ds, by rw [List.append_assoc]; exact hcs⟩

end Ranges
