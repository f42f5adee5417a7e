import Mathlib
import TargetClickhouse.Delivery
import TargetClickhouse.RetryBound
import TargetClickhouse.Lib.Columns

/-!
# The columns of an Arrow table

`_conform_arrow_table_columns` renames the columns like `conform_record` renames the keys of a
record, but without its check for two equal names.  Where two names conform to the same one, the
insert is refused only for another reason (`keepsColumns_iff`), and the path through `to_pylist`
sends one of the two columns.
-/

namespace TargetClickhouse

open Effects Effects.Proc Attempts Dict

/-! ## The cells of a request -/

/-- Row `i` of an insert, by column names. -/
def Request.row (i : ℕ) : Request → Record
  | .insert _ columns data _ => columnarRow columns data i
  | .insertArrow _ arrow => columnarRow arrow.names arrow.columns i
  | .sqlInsert _ rows => rows.getD i []
  | .nativeInsert _ columns data => columnarRow columns data i
  | _ => []

/-- The schema has a property for the column. -/
def Schema.NamesColumn (sdk : Sdk) (schema : Schema) (name : String) : Prop :=
  ∃ properties, schema.properties = .ok properties ∧
    sdk.conformName name ∈ (keys properties).map sdk.conformName

/-- The rows of the request have every cell of the columns that the schema names, as it is or as
JSON text. -/
def Request.HasCells (sdk : Sdk) (schema : Schema) (table : ArrowTable) (request : Request) : Prop :=
  ∀ named ∈ table.names.zip table.columns, schema.NamesColumn sdk named.1 → ∀ i < table.numRows,
    ∃ v, (sdk.conformName named.1, v) ∈ request.row i ∧
      (v = named.2.getD i .none ∨ sdk.encodeValue (named.2.getD i .none) = .ok v)

theorem mem_columnarRow {f : String → String} {names : List String} {columns : List (List Value)}
    {named : String × List Value} (h : named ∈ names.zip columns) (i : ℕ) :
    (f named.1, named.2.getD i .none) ∈ columnarRow (names.map f) columns i := by
  rw [columnarRow, List.zip_map]
  exact List.mem_map.2 ⟨named, h, rfl⟩

/-- The rows of a request with records. -/
theorem Request.CarriesRecords.row_eq {sdk : Sdk} {schema : Schema} {records : List Record}
    {request : Request} (h : request.CarriesRecords sdk schema records) :
    ∃ encoded columns conformed, records.mapM sdk.encodeRecord = .ok encoded ∧
      sdk.conformBatch schema encoded = .ok (columns, conformed) ∧
      ∀ i record, conformed[i]? = some record →
        request.row i = columns.map fun name => (name, (record.lookup name).getD .none) := by
  cases h with
  | @columnar encoded columns data table settings hencoded hdata =>
    obtain ⟨conformed, hbatch, rfl⟩ := Sdk.columnData_eq_ok hdata
    refine ⟨encoded, columns, conformed, hencoded, hbatch, fun i record hrecord => ?_⟩
    -- the row of the columns is the row of the record
    have hrows := Columns.rows_getElem? (fun (r : Record) name => (r.lookup name).getD .none)
      columns conformed .none (List.getElem?_eq_some_iff.1 hrecord).1
    rw [Columns.rows, List.getElem?_map, hrecord] at hrows
    exact (Option.some.inj hrows).symm
  | @rows encoded rows fullTableName hencoded hrows =>
    obtain ⟨columns, conformed, hbatch, rfl⟩ := Sdk.sqlRows_eq_ok hrows
    refine ⟨encoded, columns, conformed, hencoded, hbatch, fun i record hrecord => ?_⟩
    rw [row, List.getD_eq_getElem?_getD, List.getElem?_map, hrecord]
    rfl

/-- What the schema names is a column of the insert. -/
theorem Schema.NamesColumn.mem {sdk : Sdk} {schema : Schema} {name : String}
    {columns : List String} (h : schema.NamesColumn sdk name)
    (hcolumns : sdk.conformedColumns schema = .ok columns) : sdk.conformName name ∈ columns := by
  obtain ⟨properties, hproperties, hmem⟩ := h
  rw [Sdk.conformedColumns, hproperties] at hcolumns
  obtain ⟨rfl, -⟩ := Sdk.conformNames_eq_ok_iff.1 hcolumns
  exact hmem

/-- Without a clash, the rows of a request have the cells of all columns. -/
theorem Request.Carries.hasCells {sdk : Sdk} {schema : Schema} {table : ArrowTable}
    {request : Request} (hnodup : (table.names.map sdk.conformName).Nodup)
    (h : request.Carries sdk schema table) : request.HasCells sdk schema table := by
  intro named hnamed hcolumn i hi
  have hcell : (sdk.conformName named.1, named.2.getD i .none) ∈
      columnarRow (table.conform sdk).names (table.conform sdk).columns i :=
    mem_columnarRow hnamed i
  cases h with
  | arrow target => exact ⟨_, hcell, Or.inl rfl⟩
  | native target => exact ⟨_, hcell, Or.inl rfl⟩
  | records h =>
    obtain ⟨encoded, columns, conformed, hencoded, hbatch, hrow⟩ := h.row_eq
    rw [ArrowTable.conformBatch_toPylist hencoded] at hbatch
    obtain ⟨columns', hcolumns, hpair⟩ := map_eq_ok_iff.1 hbatch
    obtain ⟨rfl, rfl⟩ := Prod.mk.inj hpair
    rw [ArrowTable.toPylist_eq_nativeRows hnodup] at hencoded
    have hnative : (table.conform sdk).nativeRows[i]? =
        some (columnarRow (table.conform sdk).names (table.conform sdk).columns i) := by
      have hlt : i < (table.conform sdk).numRows := hi
      rw [ArrowTable.nativeRows, List.getElem?_map, List.getElem?_range hlt]
      rfl
    -- the cell is in the encoded record, under the same name
    obtain ⟨record, hrecord, henc⟩ := exists_getElem?_right (mapM_eq_ok_iff.1 hencoded) hnative
    obtain ⟨⟨name, v⟩, hmem, hname, hv⟩ :=
      exists_of_mem_left (Sdk.encodeRecord_eq_ok_iff.1 henc) hcell
    obtain rfl : name = sdk.conformName named.1 := hname
    have hkeys : (keys record).Nodup := by
      rw [Sdk.keys_encodeRecord henc, ArrowTable.keys_columnarRow]
      exact hnodup
    refine ⟨v, ?_, Or.inr hv⟩
    rw [hrow i record hrecord]
    refine List.mem_map.2 ⟨_, hcolumn.mem hcolumns, ?_⟩
    rw [lookup_of_mem hkeys hmem]
    rfl

/-! ## Refused inserts -/

namespace Sink

/-- The insert of the table is refused, whatever its names are: the table has rows, and there is no
name for the target; or the table takes the path of the records, and one of its cells has no form in
JSON or the columns of the schema cannot be conformed. -/
def RefusesArrow (sdk : Sdk) (sink : Sink) (table : ArrowTable) : Prop :=
  table.numRows ≠ 0 ∧
    ((∃ e, sink.fullTableName = .error e) ∨
      (sink.config.useClickhouseConnect = false ∧ sink.config.useNativeDriver = false) ∧
        ((∃ record ∈ (table.conform sdk).toPylist, ∃ cell ∈ record,
            ∃ e, sdk.encodeValue cell.2 = .error e) ∨
          ∃ e, sdk.conformedColumns sink.schema = .error e))

variable {sdk : Sdk} {naming : Naming} {sink : Sink} {table : ArrowTable}

/-- The path of the records has no stage exactly when it cannot bring the rows into shape. -/
theorem recordStages_toPylist_eq_nil_iff (hfast : sink.config.useClickhouseConnect = false) :
    sink.recordStages sdk sink.schema (table.conform sdk).toPylist = [] ↔
      (∃ record ∈ (table.conform sdk).toPylist, ∃ cell ∈ record,
          ∃ e, sdk.encodeValue cell.2 = .error e) ∨
        ∃ e, sdk.conformedColumns sink.schema = .error e := by
  rw [← Sdk.encodeRecords_eq_error_iff, recordStages]
  cases hencoded : (table.conform sdk).toPylist.mapM sdk.encodeRecord with
  | error e => simp
  | ok encoded =>
    dsimp only
    rw [ArrowTable.conformBatch_toPylist hencoded, hfast]
    cases sdk.conformedColumns sink.schema with
    | error e => simp [Except.map]
    | ok columns => simp [Except.map]

/-- No stage is left to send the table in exactly when it has no rows or the insert is refused. -/
theorem arrowStages_eq_nil_iff :
    sink.arrowStages sdk table = [] ↔ table.numRows = 0 ∨ sink.RefusesArrow sdk table := by
  unfold arrowStages RefusesArrow
  by_cases hrows : table.numRows = 0
  · simp [hrows]
  · rw [if_neg hrows, or_iff_right hrows, and_iff_right hrows]
    cases hname : sink.fullTableName with
    | error e => simp
    | ok name =>
      dsimp only
      cases hfast : sink.config.useClickhouseConnect with
      | true => simp
      | false =>
        cases hnative : sink.config.useNativeDriver with
        | true => simp
        | false => simpa using recordStages_toPylist_eq_nil_iff hfast

theorem insertArrowViaRecords_of_refuses (hfast : sink.config.useClickhouseConnect = false)
    (h : (∃ record ∈ (table.conform sdk).toPylist, ∃ cell ∈ record,
        ∃ e, sdk.encodeValue cell.2 = .error e) ∨
      ∃ e, sdk.conformedColumns sink.schema = .error e) :
    ∃ e, sink.insertArrowViaRecords sdk naming (table.conform sdk) = raise e := by
  rw [insertArrowViaRecords]
  cases sink.fullTableName with
  | error e => exact ⟨e, rfl⟩
  | ok name =>
    rw [lift_ok_bind, bulkInsertRecords]
    cases hencoded : (table.conform sdk).toPylist.mapM sdk.encodeRecord with
    | error e => exact ⟨e, rfl⟩
    | ok encoded =>
      have hcells : ¬ ∃ e, (Except.ok encoded : Except Exn (List Record)) = .error e := by simp
      rw [← Sdk.encodeRecords_eq_error_iff, hencoded] at h
      obtain ⟨e, he⟩ := h.resolve_left hcells
      refine ⟨e, ?_⟩
      rw [lift_ok_bind, insertRecords, hfast, if_neg Bool.false_ne_true, sdkBulkInsertRecords,
        Sdk.sqlRows, ArrowTable.conformBatch_toPylist hencoded, he]
      rfl

/-- A refused insert raises before it sends anything. -/
theorem insertArrowTable_of_refuses (h : sink.RefusesArrow sdk table) (w : World) :
    ∃ e, sink.insertArrowTable sdk naming table w = (.raised e, w) := by
  obtain ⟨hrows, h⟩ := h
  rw [insertArrowTable, if_neg hrows]
  rcases h with ⟨e, hname⟩ | ⟨⟨hfast, hnative⟩, h⟩
  · have hrecords : sink.insertArrowViaRecords sdk naming (table.conform sdk) = raise e := by
      rw [insertArrowViaRecords, hname]
      rfl
    have hconnect : sink.insertArrowViaClickhouseConnect naming (table.conform sdk) = raise e := by
      rw [insertArrowViaClickhouseConnect, hname]
      rfl
    have hattempt : sink.withRetry (raise e : Step ℤ) w = (.raised e, w) := by
      refine withRetry_of_not_cannotConnect ?_
      rintro ⟨id, hid⟩
      obtain rfl := Res.raised.inj hid
      exact fullTableName_ne_connectionError hname
    refine ⟨e, ?_⟩
    split_ifs
    · rw [hrecords, hconnect, handle_apply, hattempt]
      rfl
    · rw [insertArrowViaNativeDriver, hname]
      rfl
    · rw [hrecords]
      rfl
  · obtain ⟨e, he⟩ := insertArrowViaRecords_of_refuses hfast h
    refine ⟨e, ?_⟩
    rw [hfast, hnative, if_neg Bool.false_ne_true, if_neg Bool.false_ne_true, he]
    rfl

end Sink

/-! ## Columns that are kept -/

/-- No column of the table is lost: two equal names are refused before any row is sent, and every
request with rows has the cells of the columns that the schema names. -/
structure KeepsColumns (sdk : Sdk) (naming : Naming) (sink : Sink) (table : ArrowTable) : Prop where
  apart : ∀ w : World, (table.names.map sdk.conformName).Nodup ∨
    ∃ e, (sink.insertArrowTable sdk naming table w).1 = .raised e ∧
      w.Sends (fun request => request.isInsert = false)
        (sink.insertArrowTable sdk naming table w).2
  cells : ∀ w : World, w.Sends
    (fun request => request.isInsert = true → request.HasCells sdk sink.schema table)
    (sink.insertArrowTable sdk naming table w).2

/-- An insert keeps the columns exactly when no two names conform to the same one, or it is refused
for another reason. -/
theorem keepsColumns_iff (sdk : Sdk) (naming : Naming) (sink : Sink) (table : ArrowTable) :
    KeepsColumns sdk naming sink table ↔
      (table.names.map sdk.conformName).Nodup ∨ sink.RefusesArrow sdk table := by
  constructor
  · -- a server that accepts everything receives an insert, unless there is no stage to send it in
    intro h
    rcases h.apart ⟨[.returned 0], [], []⟩ with hnodup | ⟨e, hraised, hsends⟩
    · exact Or.inl hnodup
    · have hclimbs : Climbs sink (sink.arrowStages sdk table)
          (sink.insertArrowTable sdk naming table) := Sink.climbs_insertArrowTable table
      replace hclimbs := hclimbs ⟨[.returned 0], [], []⟩
      rw [hsends.insertOutcomes_eq] at hclimbs
      have hstages := ladder_eq_nil_iff.1 (List.self_eq_append_right.1 hclimbs)
      refine Or.inr ((Sink.arrowStages_eq_nil_iff.1 hstages).resolve_left fun hrows => ?_)
      rw [Sink.insertArrowTable, if_pos hrows] at hraised
      cases hraised
  · rintro (hnodup | hrefuses)
    · refine ⟨fun w => Or.inl hnodup, ?_⟩
      refine Sink.moves_insertArrowTable sdk naming sink table fun request hissued => ?_
      refine sends_send fun hinsert => ?_
      rcases hissued with hcarries | ⟨target, rfl⟩
      · exact hcarries.hasCells hnodup
      · cases hinsert
    · have hraises : ∀ w : World, ∃ e,
          sink.insertArrowTable sdk naming table w = (.raised e, w) :=
        Sink.insertArrowTable_of_refuses hrefuses
      constructor
      · intro w
        obtain ⟨e, he⟩ := hraises w
        rw [he]
        exact Or.inr ⟨e, rfl, refl_of _ w⟩
      · intro w
        obtain ⟨e, he⟩ := hraises w
        rw [he]
        exact refl_of _ w

/-- The SDK with names in lower case. -/
def Sdk.lowerCase : Sdk :=
  { Sdk.verbatim with
    conformName := fun name => String.ofList (name.toList.map Char.toLower)
    conformName_idem := fun name => by
      rw [String.toList_ofList, List.map_map]
      exact congrArg String.ofList (List.map_congr_left fun c _ => c.toLower_toLower_eq_toLower) }

/-- A table with two columns that differ in the case of their names. -/
def ArrowTable.twoCases : ArrowTable where
  names := ["Id", "id"]
  columns := [[.int 1], [.int 2]]
  numRows := 1
  length_columns := rfl
  length_of_mem := by decide

/-- Both columns conform to `id`, and the insert returns. -/
theorem not_keepsColumns_twoCases :
    let sink : Sink :=
      ⟨{ driver := some .asynch }, .object [("id", .typed (.one .integer) none)], "users", none⟩
    ¬ KeepsColumns .lowerCase .identifiers sink .twoCases := by
  intro sink h
  rcases h.apart ⟨[.returned 1], [], []⟩ with hnodup | ⟨e, hraised, -⟩
  · exact absurd hnodup (by decide)
  · have hreturns : (sink.insertArrowTable .lowerCase .identifiers .twoCases
        ⟨[.returned 1], [], []⟩).1 = .ok 1 := rfl
    rw [hreturns] at hraised
    cases hraised

/-- One of the two cells is sent. -/
example : (ArrowTable.twoCases.conform .lowerCase).genericRows .lowerCase
    (.object [("id", .typed (.one .integer) none)]) = .ok [[("id", .int 2)]] := by
  rfl

end TargetClickhouse
