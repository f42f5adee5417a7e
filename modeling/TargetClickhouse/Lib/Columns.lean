import Mathlib.Tactic

/-!
# Rows and columns

Records laid out as rows, one list of named cells for each record, or as columns, one list of cells
for each name.  Both are built with a function that gives the cell of a record under a name.
-/

namespace Columns

variable {ρ α β : Type} (cell : ρ → α → β) (names : List α) (records : List ρ)

def rows : List (List (α × β)) := records.map fun r => names.map fun n => (n, cell r n)

def columns : List (List β) := names.map fun n => records.map fun r => cell r n

/-- Row `i` of column-major data; `d` stands for a missing cell. -/
def rowAt (d : β) (data : List (List β)) (i : ℕ) : List (α × β) :=
  names.zip (data.map fun column => column.getD i d)

theorem length_columns : (columns cell names records).length = names.length :=
  List.length_map _

theorem length_of_mem_columns {column : List β} (h : column ∈ columns cell names records) :
    column.length = records.length := by
  obtain ⟨n, -, rfl⟩ := List.mem_map.1 h
  exact List.length_map _

/-- The rows of the columns are the rows. -/
theorem rows_getElem? (d : β) {i : ℕ} (hi : i < records.length) :
    (rows cell names records)[i]? = some (rowAt names d (columns cell names records) i) := by
  have hcells : (columns cell names records).map (fun column => column.getD i d) =
      names.map fun n => cell records[i] n := by
    unfold columns
    rw [List.map_map]
    refine List.map_congr_left fun n _ => ?_
    simp [hi]
  have hzip : rowAt names d (columns cell names records) i =
      names.map fun n => (n, cell records[i] n) := by
    rw [rowAt, hcells, List.zip_eq_zipWith, List.zipWith_map_right, List.zipWith_self]
  rw [hzip, rows, List.getElem?_map, List.getElem?_eq_getElem hi]
  rfl

end Columns
