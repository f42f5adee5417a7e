import TargetClickhouse.Inserts
import TargetClickhouse.Lib.Columns

/-!
# The columnar insert and the row insert

`_bulk_insert_via_clickhouse_connect` sends the conformed records as columns, the SDK's insert sends
them as rows.  `columnarInsert_transposes` says that the one is the transpose of the other, for
records with missing, extra and renamed keys.
-/

namespace TargetClickhouse

open Effects Effects.Proc Dict

namespace Sdk

variable (sdk : Sdk)

/-- The record under its conformed names. -/
def renamed (record : Record) : Record := record.map fun kv => (sdk.conformName kv.1, kv.2)

/-- The value of a record in a column, `None` when it is missing. -/
def cell (record : Record) (column : String) : Value :=
  ((sdk.renamed record).lookup column).getD .none

variable {sdk}

theorem conformRecord_eq_renamed {record : Record}
    (h : ((keys record).map sdk.conformName).Nodup) :
    sdk.conformRecord record = .ok (sdk.renamed record) := by
  have hnames : sdk.conformNames (keys record) = .ok ((keys record).map sdk.conformName) :=
    conformNames_eq_ok_iff.2 ⟨rfl, h⟩
  rw [conformRecord, hnames]
  refine congrArg Except.ok ?_
  show ((keys record).map sdk.conformName).zip (record.map Prod.snd) = sdk.renamed record
  rw [keys, List.map_map, List.zip_map']
  rfl

/-- Without a clash of names, a batch has the conformed columns and the renamed records. -/
theorem conformBatch_eq_renamed {schema : Schema} {properties : List (String × Schema)}
    {records : List Record} (hschema : schema.properties = .ok properties)
    (hcolumns : ((keys properties).map sdk.conformName).Nodup)
    (hrecords : ∀ r ∈ records, ((keys r).map sdk.conformName).Nodup) :
    sdk.conformBatch schema records =
      .ok ((keys properties).map sdk.conformName, records.map sdk.renamed) := by
  have hnames : sdk.conformedColumns schema = .ok ((keys properties).map sdk.conformName) := by
    rw [conformedColumns, hschema]
    exact conformNames_eq_ok_iff.2 ⟨rfl, hcolumns⟩
  have hrenamed : records.mapM sdk.conformRecord = .ok (records.map sdk.renamed) := by
    rw [mapM_eq_ok_iff, List.forall₂_map_right_iff, List.forall₂_same]
    exact fun r hr => conformRecord_eq_renamed (hrecords r hr)
  rw [conformBatch, hnames, hrenamed]
  rfl

theorem isContainer_cell {record : Record} (h : ∀ kv ∈ record, kv.2.isContainer = false)
    (column : String) : (sdk.cell record column).isContainer = false := by
  unfold cell
  cases hv : (sdk.renamed record).lookup column with
  | none => rfl
  | some v =>
    obtain ⟨kv, hkv, he⟩ := List.mem_map.1 (mem_of_lookup hv)
    obtain ⟨-, rfl⟩ := Prod.mk.inj he
    exact h kv hkv

end Sdk

namespace Sink

/-- For a batch of encoded records, the fast insert sends the columns and the SDK's insert the rows,
and the one is the transpose of the other. -/
structure Transposed (sdk : Sdk) (sink : Sink) (fullTableName : String) (schema : Schema)
    (encoded : List Record) (columns : List String) (data : List (List Value))
    (rows : List Record) : Prop where
  /-- Without records, nothing is sent. -/
  fast : encoded ≠ [] → sink.bulkInsertViaClickhouseConnect sdk fullTableName schema encoded =
    attempt (.insert (Statement.fastInsert.tableRef fullTableName) columns data
      sink.insertSettings) (encoded.length : ℤ)
  sql : sdkBulkInsertRecords sdk fullTableName schema encoded = send (.sqlInsert fullTableName rows)
  rows_eq : rows = encoded.map fun r => columns.map fun name => (name, sdk.cell r name)
  length_data : data.length = columns.length
  length_of_mem : ∀ column ∈ data, column.length = encoded.length
  row_eq : ∀ i < encoded.length, rows[i]? = some (columnarRow columns data i)
  not_container : ∀ row ∈ rows, ∀ kv ∈ row, kv.2.isContainer = false

/-- The columns that the fast insert sends are the transpose of the rows that the SDK's insert sends
for the same records, when no two names of the schema or of a record conform to the same name. -/
theorem columnarInsert_transposes (sdk : Sdk) (sink : Sink) (fullTableName : String)
    {schema : Schema} {properties : List (String × Schema)} {records encoded : List Record}
    (hschema : schema.properties = .ok properties)
    (hcolumns : ((keys properties).map sdk.conformName).Nodup)
    (hrecords : ∀ r ∈ records, ((keys r).map sdk.conformName).Nodup)
    (hencoded : records.mapM sdk.encodeRecord = .ok encoded) :
    encoded.length = records.length ∧ ∃ data rows,
      Transposed sdk sink fullTableName schema encoded ((keys properties).map sdk.conformName) data
        rows := by
  have hforall := mapM_eq_ok_iff.1 hencoded
  have hlength : encoded.length = records.length := hforall.length_eq.symm
  have hnodup : ∀ r ∈ encoded, ((keys r).map sdk.conformName).Nodup := by
    intro r hr
    obtain ⟨r₀, hr₀, henc⟩ := exists_of_mem_right hforall hr
    rw [Sdk.keys_encodeRecord henc]
    exact hrecords r₀ hr₀
  have hbatch := Sdk.conformBatch_eq_renamed hschema hcolumns hnodup
  generalize (keys properties).map sdk.conformName = columns at hbatch ⊢
  have hdata : sdk.columnData schema encoded =
      .ok (columns, Columns.columns sdk.cell columns encoded) := by
    rw [Sdk.columnData, hbatch]
    refine congrArg Except.ok (congrArg (Prod.mk columns) ?_)
    exact List.map_congr_left fun name _ => List.map_map
  have hrows : sdk.sqlRows schema encoded = .ok (Columns.rows sdk.cell columns encoded) := by
    rw [Sdk.sqlRows, hbatch]
    exact congrArg Except.ok List.map_map
  refine ⟨hlength, Columns.columns sdk.cell columns encoded,
    Columns.rows sdk.cell columns encoded, ?_⟩
  exact
    { fast := fun hne => by
        rw [bulkInsertViaClickhouseConnect, if_neg hne, hdata]
        rfl
      sql := by
        rw [sdkBulkInsertRecords, hrows]
        rfl
      rows_eq := rfl
      length_data := Columns.length_columns _ _ _
      length_of_mem := fun column => Columns.length_of_mem_columns _ _ _
      row_eq := fun i hi => Columns.rows_getElem? _ _ _ _ hi
      not_container := by
        intro row hrow kv hkv
        obtain ⟨r, hr, rfl⟩ := List.mem_map.1 hrow
        obtain ⟨name, -, rfl⟩ := List.mem_map.1 hkv
        obtain ⟨r₀, -, henc⟩ := exists_of_mem_right hforall hr
        exact Sdk.isContainer_cell (Sdk.not_container_of_encodeRecord henc) name }

/-- A record without one of the columns, and with a key that is no property. -/
theorem columnarInsert_transposes_ragged :
    let schema := .object [("id", .typed (.one .integer) none), ("tags", .typed (.one .array) none)]
    let records : List Record := [[("tags", .list [.int 1]), ("x", .int 1)], [("id", .int 2)]]
    let encoded : List Record := [[("tags", .str "[1]"), ("x", .int 1)], [("id", .int 2)]]
    encoded.length = records.length ∧ ∃ data rows,
      Transposed .verbatim ⟨{}, .bool true, "users", none⟩ "users" schema encoded ["id", "tags"]
        data rows := by
  intro schema records encoded
  have hschema : schema.properties =
      .ok [("id", .typed (.one .integer) none), ("tags", .typed (.one .array) none)] := rfl
  have hencoded : records.mapM Sdk.verbatim.encodeRecord = .ok encoded := rfl
  exact columnarInsert_transposes .verbatim _ "users" hschema (by decide) (by decide) hencoded

end Sink

end TargetClickhouse
