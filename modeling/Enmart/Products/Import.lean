import Enmart.Products.Store

/-!
# Importing a spreadsheet

`pickExcelAndDecode` goes through the tables of a workbook. The first row of a
table is its header, whose cells are cast to texts; for each of the other rows
the cells are collected and a product is added, in a `try` of its own, so that
a row that cannot be read is passed over and the next one is tried.

The header is cast outside of that `try`. A header cell that is a number, or
empty, raises an exception that the outermost handler catches, and with it the
table and all tables after it are passed over in silence. Every row is imported
exactly when nothing comes after such a header (`every_row_imported_iff`).
-/

/-- The value of a cell. -/
inductive Cell where
  | text (s : String)
  | number (q : ℚ)
  | empty
  deriving DecidableEq, Repr

/-- The text of a cell; the cast of anything else raises an exception. -/
def Cell.asText : Cell → Option String
  | text s => some s
  | _ => none

/-- **A table**: its rows, each with a cell for every column. -/
structure Table where
  name : String
  maxCols : ℕ
  rows : List (List Cell)
  /-- A row has a cell for every column, which may be empty. -/
  width : ∀ row ∈ rows, row.length = maxCols

/-- A product that was added, with the row it was added for. -/
structure AddedProduct where
  table : String
  row : ℕ
  product : ProductModel
  deriving DecidableEq, Repr

namespace Table

/-- The rows below the header, with their numbers. -/
def dataRows (t : Table) : List (List Cell × ℕ) := t.rows.zipIdx.tail

/-- The cells of a row under the placeholders for their columns, unless one is
not there. -/
def rowData (t : Table) (row : List Cell) : Option (List (String × Cell)) :=
  (List.range t.maxCols).mapM (fun j =>
    row[j]?.map (fun value => ("column_" ++ toString (j + 1), value)))

/-- The header: its cells are all texts. -/
def headers (t : Table) : Option (List String) :=
  match t.rows with
  | [] => some []
  | header :: _ => header.mapM Cell.asText

/-- What a table adds for a row, the clock showing `now` then. -/
def added (t : Table) (now : DateTime) (i : ℕ) : AddedProduct where
  table := t.name
  row := i
  product := importedRow now

end Table

section Clock

variable (now : String → ℕ → DateTime)

/-- **The products a table adds**, unless an exception leaves it. -/
def importTable (t : Table) : Option (List AddedProduct) :=
  t.headers.map (fun _ =>
    t.dataRows.filterMap (fun row =>
      -- a row that raises an exception is passed over
      (t.rowData row.fst).map (fun _ => t.added (now t.name row.snd) row.snd)))

/-- **`pickExcelAndDecode`**: the products added for the tables of a
workbook. -/
def pickExcelAndDecode : List Table → List AddedProduct
  | [] => []
  | t :: tables =>
    match importTable now t with
    | some products => products ++ pickExcelAndDecode tables
    -- an exception ends the import
    | none => []

/-- **Every row is imported**: one product is added for every row below the
header of every table. -/
def EveryRowImported (tables : List Table) : Prop :=
  pickExcelAndDecode now tables
    = tables.flatMap (fun t => t.dataRows.map (fun row => t.added (now t.name row.snd) row.snd))

/-- **Nothing comes after a header that is not text**: where a header has a cell
that is a number or empty, neither its table nor a later one has a row below
its header. -/
def NothingAfterBadHeader (tables : List Table) : Prop :=
  ∀ before t after, tables = before ++ t :: after →
    (∃ cell ∈ t.rows.head?.getD [], ∀ s, cell ≠ .text s) →
      ∀ u ∈ t :: after, u.dataRows = []

variable {now}

/-- Cells can be cast where they are texts. -/
theorem isSome_mapM_asText_iff {cells : List Cell} :
    (cells.mapM Cell.asText).isSome ↔ ¬ ∃ cell ∈ cells, ∀ s, cell ≠ .text s := by
  rw [Firestore.isSome_mapM_iff]
  constructor
  · rintro h ⟨cell, hcell, hne⟩
    have hsome := h cell hcell
    cases cell with
    | text s => exact hne s rfl
    | number q => exact Bool.false_ne_true hsome
    | empty => exact Bool.false_ne_true hsome
  · intro h cell hcell
    cases cell with
    | text s => rfl
    | number q => exact absurd ⟨_, hcell, fun s => nofun⟩ h
    | empty => exact absurd ⟨_, hcell, fun s => nofun⟩ h

/-- A header is read where all its cells are texts. -/
theorem Table.isSome_headers_iff (t : Table) :
    t.headers.isSome ↔ ¬ ∃ cell ∈ t.rows.head?.getD [], ∀ s, cell ≠ .text s := by
  unfold Table.headers
  cases t.rows with
  | nil => exact iff_of_true rfl (fun ⟨cell, hcell, _⟩ => List.not_mem_nil hcell)
  | cons header rows => exact isSome_mapM_asText_iff

/-- A row of the table has all its cells. -/
theorem Table.isSome_rowData (t : Table) {row : List Cell} (h : row ∈ t.rows) :
    (t.rowData row).isSome := by
  refine Firestore.isSome_mapM_iff.mpr (fun j hj => ?_)
  have hlt : j < row.length := by
    rw [t.width row h]
    exact List.mem_range.mp hj
  rw [List.getElem?_eq_getElem hlt]
  rfl

/-- **A table whose header is read adds a product for each of its rows**,
whatever is in them. -/
theorem importTable_of_headers {t : Table} (h : t.headers.isSome) :
    importTable now t
      = some (t.dataRows.map (fun row => t.added (now t.name row.snd) row.snd)) := by
  obtain ⟨headers, hheaders⟩ := Option.isSome_iff_exists.mp h
  rw [importTable, hheaders, Option.map_some, ← List.filterMap_eq_map]
  refine congrArg some (List.filterMap_congr (fun row hrow => ?_))
  have hmem : row.fst ∈ t.rows := List.fst_mem_of_mem_zipIdx (List.mem_of_mem_tail hrow)
  obtain ⟨data, hdata⟩ := Option.isSome_iff_exists.mp (t.isSome_rowData hmem)
  rw [hdata]
  rfl

/-- A table whose header is not read ends the import. -/
theorem pickExcelAndDecode_of_not_headers {t : Table} (h : ¬ t.headers.isSome)
    (tables : List Table) : pickExcelAndDecode now (t :: tables) = [] := by
  have hnone : importTable now t = none := by
    rw [importTable, Option.not_isSome_iff_eq_none.mp h]
    rfl
  rw [pickExcelAndDecode, hnone]

/-- **When every row of a workbook is imported**: exactly when neither a table
whose header has a cell that is no text, nor a table after it, has a row below
its header. -/
theorem every_row_imported_iff (now : String → ℕ → DateTime) (tables : List Table) :
    EveryRowImported now tables ↔ NothingAfterBadHeader tables := by
  induction tables with
  | nil => exact iff_of_true rfl (fun before t after h => absurd h (by simp))
  | cons t tables ih =>
    by_cases hheaders : t.headers.isSome
    · -- the table is imported; what is left is to be said of the others
      have hlaw : EveryRowImported now (t :: tables) ↔ EveryRowImported now tables := by
        unfold EveryRowImported
        rw [pickExcelAndDecode, importTable_of_headers hheaders, List.flatMap_cons]
        exact List.append_right_inj _
      rw [hlaw, ih]
      constructor
      · intro h before u after hsplit hbad
        cases before with
        | nil =>
          obtain ⟨rfl, -⟩ := List.cons.inj hsplit
          exact absurd hbad (t.isSome_headers_iff.mp hheaders)
        | cons b before => exact h before u after (List.cons.inj hsplit).2 hbad
      · intro h before u after hsplit hbad
        exact h (t :: before) u after (by rw [hsplit]; rfl) hbad
    · have hbad : ∃ cell ∈ t.rows.head?.getD [], ∀ s, cell ≠ .text s := by
        by_contra hc
        exact hheaders (t.isSome_headers_iff.mpr hc)
      have hlaw : EveryRowImported now (t :: tables) ↔ ∀ u ∈ t :: tables, u.dataRows = [] := by
        unfold EveryRowImported
        rw [pickExcelAndDecode_of_not_headers hheaders, eq_comm, List.flatMap_eq_nil_iff]
        exact forall_congr' (fun u => imp_congr_right (fun _ => List.map_eq_nil_iff))
      rw [hlaw]
      constructor
      · intro h before u after hsplit _ v hv
        exact h v (by rw [hsplit]; exact List.mem_append_right before hv)
      · intro h
        exact h [] t tables rfl hbad

end Clock

/-- **A header with an empty cell takes the next table with it.** -/
theorem later_table_dropped :
    ¬ EveryRowImported (fun _ _ => ⟨0⟩)
      [⟨"Sheet1", 2, [[.text "code", .empty]], by decide⟩,
        ⟨"Sheet2", 1, [[.text "code"], [.text "a"]], by decide⟩] := by
  unfold EveryRowImported
  decide +kernel
