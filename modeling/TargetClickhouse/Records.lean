import TargetClickhouse.Config
import TargetClickhouse.Lib.Dict

/-!
# Records and Arrow tables

How the records of a batch and the rows of an Arrow table are brought into the shape that an insert
sends: names conformed, containers written as JSON text, missing properties filled with `None`,
columns or rows.  `nativeAgrees_iff` compares the two shapes in which an Arrow table can be sent.
-/

namespace TargetClickhouse

open Dict

/-! ## Records -/

namespace Sdk

variable (sdk : Sdk)

/-- The conformed names, unless two of them are equal. -/
def conformNames (names : List String) : Except Exn (List String) :=
  let conformed := names.map sdk.conformName
  if conformed.Nodup then .ok conformed else .error .conformedNameClash

/-- The column names of `conform_schema(schema)`. -/
def conformedColumns (schema : Schema) : Except Exn (List String) := do
  let properties ← schema.properties
  sdk.conformNames (keys properties)

/-- `conform_record`. -/
def conformRecord (record : Record) : Except Exn Record := do
  let names ← sdk.conformNames (keys record)
  return names.zip (record.map Prod.snd)

/-- A dictionary or list as its JSON text, any other value as it is. -/
def encodeValue (value : Value) : Except Exn Value :=
  if value.isContainer then (sdk.dumps value).map .str else .ok value

/-- The conversion of a record's containers at the head of `bulk_insert_records`. -/
def encodeRecord (record : Record) : Except Exn Record :=
  record.mapM fun kv => (sdk.encodeValue kv.2).map fun value => (kv.1, value)

/-- The conformed columns of the schema and the conformed records. -/
def conformBatch (schema : Schema) (records : List Record) :
    Except Exn (List String × List Record) := do
  let columns ← sdk.conformedColumns schema
  let conformed ← records.mapM sdk.conformRecord
  return (columns, conformed)

/-- The rows of the SDK's own `bulk_insert_records`: the conformed records with the properties of
the schema, missing ones filled with `None`. -/
def sqlRows (schema : Schema) (records : List Record) : Except Exn (List Record) := do
  let (columns, conformed) ← sdk.conformBatch schema records
  return conformed.map fun record => columns.map fun name => (name, (record.lookup name).getD .none)

/-- The column names and column-major data of `_bulk_insert_via_clickhouse_connect`. -/
def columnData (schema : Schema) (records : List Record) :
    Except Exn (List String × List (List Value)) := do
  let (columns, conformed) ← sdk.conformBatch schema records
  return (columns, columns.map fun name => conformed.map fun record =>
    (record.lookup name).getD .none)

end Sdk

/-! ## Arrow tables -/

/-- An Arrow table: named columns of one length. -/
structure ArrowTable where
  names : List String
  columns : List (List Value)
  numRows : ℕ
  length_columns : columns.length = names.length
  length_of_mem : ∀ column ∈ columns, column.length = numRows

/-- Row `i` of column-major data, by column name. -/
def columnarRow (names : List String) (columns : List (List Value)) (i : ℕ) : Record :=
  names.zip (columns.map fun column => column.getD i .none)

namespace ArrowTable

variable (sdk : Sdk) (schema : Schema) (table : ArrowTable)

/-- `_conform_arrow_table_columns`. -/
def conform : ArrowTable where
  names := table.names.map sdk.conformName
  columns := table.columns
  numRows := table.numRows
  length_columns := by rw [List.length_map, table.length_columns]
  length_of_mem := table.length_of_mem

/-- `to_pylist`: one dictionary per row. -/
def toPylist : List Record :=
  (List.range table.numRows).map fun i => Dict.ofList (columnarRow table.names table.columns i)

/-- The rows that the columnar `execute` of `_insert_arrow_via_native_driver` sends. -/
def nativeRows : List Record :=
  (List.range table.numRows).map fun i => columnarRow table.names table.columns i

/-- The rows that `bulk_insert_records` hands to the SQLAlchemy insert for `to_pylist`. -/
def genericRows : Except Exn (List Record) := do
  let records ← table.toPylist.mapM sdk.encodeRecord
  sdk.sqlRows schema records

/-- Both ways of sending the table send the same rows, read as maps from columns to values. -/
def NativeAgrees : Prop :=
  ∃ rows, table.genericRows sdk schema = .ok rows ∧
    List.Forall₂ (fun native row => ∀ name, native.lookup name = row.lookup name)
      table.nativeRows rows

end ArrowTable

/-! ## Conforming and encoding -/

namespace Sdk

variable {sdk : Sdk}

theorem conformNames_eq_ok_iff {names columns : List String} :
    sdk.conformNames names = .ok columns ↔
      columns = names.map sdk.conformName ∧ columns.Nodup := by
  unfold conformNames
  dsimp only
  split_ifs with h
  · constructor
    · intro he
      obtain rfl := Except.ok.inj he
      exact ⟨rfl, h⟩
    · rintro ⟨rfl, -⟩
      rfl
  · refine iff_of_false (fun he => by cases he) ?_
    rintro ⟨rfl, hn⟩
    exact h hn

theorem nodup_of_conformedColumns {schema : Schema} {columns : List String}
    (h : sdk.conformedColumns schema = .ok columns) : columns.Nodup := by
  obtain ⟨properties, -, h⟩ := bind_eq_ok_iff.1 h
  exact (conformNames_eq_ok_iff.1 h).2

theorem conformBatch_eq_ok {schema : Schema} {records conformed : List Record}
    {columns : List String} (h : sdk.conformBatch schema records = .ok (columns, conformed)) :
    sdk.conformedColumns schema = .ok columns ∧ records.mapM sdk.conformRecord = .ok conformed := by
  obtain ⟨columns', hcolumns, h⟩ := bind_eq_ok_iff.1 h
  obtain ⟨conformed', hconformed, h⟩ := bind_eq_ok_iff.1 h
  obtain ⟨rfl, rfl⟩ := Prod.mk.inj (Except.ok.inj h)
  exact ⟨hcolumns, hconformed⟩

theorem length_conformBatch {schema : Schema} {records conformed : List Record}
    {columns : List String} (h : sdk.conformBatch schema records = .ok (columns, conformed)) :
    conformed.length = records.length :=
  (mapM_eq_ok_iff.1 (conformBatch_eq_ok h).2).length_eq.symm

theorem sqlRows_eq_ok {schema : Schema} {records rows : List Record}
    (h : sdk.sqlRows schema records = .ok rows) :
    ∃ columns conformed, sdk.conformBatch schema records = .ok (columns, conformed) ∧
      rows = conformed.map fun record =>
        columns.map fun name => (name, (record.lookup name).getD .none) := by
  obtain ⟨⟨columns, conformed⟩, hbatch, h⟩ := bind_eq_ok_iff.1 h
  exact ⟨columns, conformed, hbatch, (Except.ok.inj h).symm⟩

theorem columnData_eq_ok {schema : Schema} {records : List Record} {columns : List String}
    {data : List (List Value)} (h : sdk.columnData schema records = .ok (columns, data)) :
    ∃ conformed, sdk.conformBatch schema records = .ok (columns, conformed) ∧
      data = columns.map fun name => conformed.map fun record =>
        (record.lookup name).getD .none := by
  obtain ⟨⟨columns', conformed⟩, hbatch, h⟩ := bind_eq_ok_iff.1 h
  obtain ⟨rfl, rfl⟩ := Prod.mk.inj (Except.ok.inj h)
  exact ⟨conformed, hbatch, rfl⟩

/-- A record whose names are conformed already is left as it is. -/
theorem conformRecord_eq_self {record : Record} (hn : (keys record).Nodup)
    (hc : (keys record).map sdk.conformName = keys record) :
    sdk.conformRecord record = .ok record := by
  have hnames : sdk.conformNames (keys record) = .ok (keys record) :=
    conformNames_eq_ok_iff.2 ⟨hc.symm, hn⟩
  have hzip : (keys record).zip (record.map Prod.snd) = record := by
    rw [keys, List.zip_map', List.map_id'' (fun _ => rfl)]
  rw [conformRecord, hnames]
  exact congrArg Except.ok hzip

theorem encodeValue_of_not_container {v : Value} (h : v.isContainer = false) :
    sdk.encodeValue v = .ok v := by
  rw [encodeValue, h]
  rfl

/-- A container is never sent as it is. -/
theorem isContainer_of_encodeValue {v w : Value} (h : sdk.encodeValue v = .ok w) :
    w.isContainer = false := by
  unfold encodeValue at h
  split_ifs at h with hv
  · obtain ⟨s, -, rfl⟩ := map_eq_ok_iff.1 h
    rfl
  · obtain rfl := Except.ok.inj h
    simpa using hv

theorem encodeRecord_eq_ok_iff {r r' : Record} :
    sdk.encodeRecord r = .ok r' ↔
      List.Forall₂ (fun kv kv' => kv'.1 = kv.1 ∧ sdk.encodeValue kv.2 = .ok kv'.2) r r' := by
  rw [encodeRecord, mapM_eq_ok_iff]
  refine iff_of_eq (congrArg (fun R => List.Forall₂ R r r') ?_)
  funext kv kv'
  obtain ⟨k', v'⟩ := kv'
  rcases hv : sdk.encodeValue kv.2 with e | w
  · simp [Except.map]
  · simp [Except.map, eq_comm]

theorem encodeRecords_eq_error_iff {records : List Record} :
    (∃ e, records.mapM sdk.encodeRecord = .error e) ↔
      ∃ record ∈ records, ∃ cell ∈ record, ∃ e, sdk.encodeValue cell.2 = .error e := by
  rw [mapM_eq_error_iff]
  refine exists_congr fun record => and_congr_right fun _ => ?_
  rw [encodeRecord, mapM_eq_error_iff]
  refine exists_congr fun cell => and_congr_right fun _ => ?_
  cases sdk.encodeValue cell.2 <;> simp [Except.map]

theorem keys_encodeRecord {r r' : Record} (h : sdk.encodeRecord r = .ok r') :
    keys r' = keys r :=
  keys_eq_of_forall₂ (encodeRecord_eq_ok_iff.1 h)

theorem not_container_of_encodeRecord {r r' : Record} (h : sdk.encodeRecord r = .ok r') :
    ∀ kv ∈ r', kv.2.isContainer = false := by
  rw [encodeRecord_eq_ok_iff] at h
  induction h with
  | nil => simp
  | cons hkv _ ih => exact List.forall_mem_cons.2 ⟨isContainer_of_encodeValue hkv.2, ih⟩

/-- Encoding a record keeps what its names map to exactly when it holds no container. -/
theorem encodeRecord_agrees_iff {r : Record} (hn : (keys r).Nodup) :
    (∃ r', sdk.encodeRecord r = .ok r' ∧ ∀ name, r.lookup name = r'.lookup name) ↔
      ∀ kv ∈ r, kv.2.isContainer = false := by
  constructor
  · rintro ⟨r', hr', hlookup⟩ ⟨k, v⟩ hkv
    have hv := lookup_of_mem hn hkv
    rw [hlookup k] at hv
    exact not_container_of_encodeRecord hr' _ (mem_of_lookup hv)
  · intro h
    refine ⟨r, encodeRecord_eq_ok_iff.2 (List.forall₂_same.2 fun kv hkv => ?_), fun _ => rfl⟩
    exact ⟨rfl, encodeValue_of_not_container (h kv hkv)⟩

theorem lookup_fill {record : Record} {columns : List String} (h : (keys record).Perm columns)
    (name : String) :
    (columns.map fun name => (name, (record.lookup name).getD .none)).lookup name =
      record.lookup name := by
  rw [lookup_map_names]
  by_cases hn : name ∈ columns
  · obtain ⟨v, hv⟩ := Option.isSome_iff_exists.1 (lookup_isSome_iff.2 (h.mem_iff.2 hn))
    rw [if_pos hn, hv]
    rfl
  · rw [if_neg hn, lookup_eq_none fun hk => hn (h.mem_iff.1 hk)]

end Sdk

/-! ## The two shapes of an Arrow table -/

namespace ArrowTable

variable {sdk : Sdk} {schema : Schema} {table : ArrowTable}

theorem keys_columnarRow (table : ArrowTable) (i : ℕ) :
    keys (columnarRow table.names table.columns i) = table.names := by
  unfold columnarRow
  exact keys_zip (by rw [List.length_map, table.length_columns])

theorem keys_of_mem_nativeRows {r : Record} (h : r ∈ table.nativeRows) :
    keys r = table.names := by
  obtain ⟨i, -, rfl⟩ := List.mem_map.1 h
  exact keys_columnarRow table i

theorem toPylist_eq_nativeRows (h : table.names.Nodup) : table.toPylist = table.nativeRows := by
  refine List.map_congr_left fun i _ => ofList_eq_self ?_
  rwa [keys_columnarRow]

/-- The encoded rows of a conformed table have conformed keys, so that they are not renamed. -/
theorem conformBatch_toPylist {encoded : List Record}
    (hencoded : (table.conform sdk).toPylist.mapM sdk.encodeRecord = .ok encoded) :
    sdk.conformBatch schema encoded =
      (sdk.conformedColumns schema).map fun columns => (columns, encoded) := by
  have hself : encoded.mapM sdk.conformRecord = .ok encoded := by
    refine mapM_eq_ok_iff.2 (List.forall₂_same.2 fun r hr => ?_)
    obtain ⟨r₀, hr₀, henc⟩ := exists_of_mem_right (mapM_eq_ok_iff.1 hencoded) hr
    obtain ⟨i, -, rfl⟩ := List.mem_map.1 hr₀
    obtain ⟨hnodup, hsub⟩ := nodup_keys_ofList
      (columnarRow (table.conform sdk).names (table.conform sdk).columns i)
    rw [keys_columnarRow] at hsub
    rw [← Sdk.keys_encodeRecord henc] at hnodup hsub
    have hconform : ∀ name ∈ keys r, sdk.conformName name = name := by
      intro name hname
      obtain ⟨name₀, -, rfl⟩ := List.mem_map.1 (hsub hname)
      exact sdk.conformName_idem name₀
    exact Sdk.conformRecord_eq_self hnodup ((List.map_congr_left hconform).trans (List.map_id _))
  rw [Sdk.conformBatch, hself]
  cases sdk.conformedColumns schema <;> rfl

/-- The rows of the generic path, once the cells are encoded. -/
theorem genericRows_eq {columns : List String} {encoded : List Record}
    (hcols : sdk.conformedColumns schema = .ok columns)
    (hencoded : (table.conform sdk).toPylist.mapM sdk.encodeRecord = .ok encoded) :
    (table.conform sdk).genericRows sdk schema = .ok (encoded.map fun record =>
      columns.map fun name => (name, (record.lookup name).getD .none)) := by
  rw [genericRows, hencoded]
  show sdk.sqlRows schema encoded = _
  rw [Sdk.sqlRows, conformBatch_toPylist hencoded, hcols]
  rfl

theorem cells_nativeRows {p : Value → Prop} :
    (∀ r ∈ table.nativeRows, ∀ kv ∈ r, p kv.2) ↔ ∀ column ∈ table.columns, ∀ v ∈ column, p v := by
  constructor
  · intro h column hc v hv
    obtain ⟨i, hi, rfl⟩ := List.mem_iff_getElem.1 hv
    have hrow : columnarRow table.names table.columns i ∈ table.nativeRows :=
      List.mem_map_of_mem (List.mem_range.2 (table.length_of_mem column hc ▸ hi))
    have hsnd : (columnarRow table.names table.columns i).map Prod.snd =
        table.columns.map fun column => column.getD i .none :=
      List.map_snd_zip (by rw [List.length_map, table.length_columns])
    have hmem : column[i] ∈ (columnarRow table.names table.columns i).map Prod.snd := by
      rw [hsnd]
      exact List.mem_map.2 ⟨column, hc, by simp [hi]⟩
    obtain ⟨kv, hkv, he⟩ := List.mem_map.1 hmem
    exact he ▸ h _ hrow kv hkv
  · rintro h r hr ⟨k, v⟩ hkv
    obtain ⟨i, hi, rfl⟩ := List.mem_map.1 hr
    obtain ⟨column, hc, rfl⟩ := List.mem_map.1 (List.of_mem_zip hkv).2
    have hlt : i < column.length := by
      rw [table.length_of_mem column hc]
      exact List.mem_range.1 hi
    refine h column hc _ ?_
    simp [hlt]

/-- The generic rows are the encoded native rows. -/
theorem nativeAgrees_iff_encodes {columns : List String}
    (hcols : sdk.conformedColumns schema = .ok columns)
    (hperm : (table.names.map sdk.conformName).Perm columns) :
    (table.conform sdk).NativeAgrees sdk schema ↔
      ∃ records, List.Forall₂
        (fun r r' => sdk.encodeRecord r = .ok r' ∧ ∀ name, r.lookup name = r'.lookup name)
        (table.conform sdk).nativeRows records := by
  have hnodup : (table.conform sdk).names.Nodup :=
    hperm.nodup_iff.2 (Sdk.nodup_of_conformedColumns hcols)
  have hkeys : ∀ {r r'}, r ∈ (table.conform sdk).nativeRows → sdk.encodeRecord r = .ok r' →
      keys r' = (table.conform sdk).names := fun hr he =>
    (Sdk.keys_encodeRecord he).trans (keys_of_mem_nativeRows hr)
  -- whatever the encoded rows are, the generic path keeps what their names map to
  have hgeneric : ∀ {records}, List.Forall₂ (fun r r' => sdk.encodeRecord r = .ok r')
      (table.conform sdk).nativeRows records → (table.conform sdk).genericRows sdk schema =
        .ok (records.map fun r => columns.map fun name => (name, (r.lookup name).getD .none)) := by
    intro records henc
    refine genericRows_eq hcols ?_
    rw [toPylist_eq_nativeRows hnodup]
    exact mapM_eq_ok_iff.2 henc
  have hfill : ∀ {r r'}, r ∈ (table.conform sdk).nativeRows → sdk.encodeRecord r = .ok r' →
      ∀ name, (columns.map fun name => (name, (r'.lookup name).getD .none)).lookup name =
        r'.lookup name := by
    intro r r' hr he name
    refine Sdk.lookup_fill ?_ name
    rw [hkeys hr he]
    exact hperm
  have hmem : ∀ {records}, List.Forall₂ (fun r r' => sdk.encodeRecord r = .ok r')
      (table.conform sdk).nativeRows records → List.Forall₂
        (fun r r' => r ∈ (table.conform sdk).nativeRows ∧ sdk.encodeRecord r = .ok r')
        (table.conform sdk).nativeRows records := fun henc =>
    (List.forall₂_and_left _ _).2 ⟨fun _ hr => hr, henc⟩
  constructor
  · rintro ⟨rows, hrows, hagree⟩
    rcases hr : (table.conform sdk).nativeRows.mapM sdk.encodeRecord with e | records
    · rw [genericRows, toPylist_eq_nativeRows hnodup, hr] at hrows
      cases hrows
    · have henc := mapM_eq_ok_iff.1 hr
      rw [hgeneric henc] at hrows
      obtain rfl := Except.ok.inj hrows
      rw [List.forall₂_map_right_iff] at hagree
      refine ⟨records, (hmem henc).mp (fun r r' hr hsame => ⟨hr.2, fun name => ?_⟩) hagree⟩
      rw [hsame name, hfill hr.1 hr.2]
  · rintro ⟨records, h⟩
    have henc := h.imp fun _ _ hr => hr.1
    refine ⟨_, hgeneric henc, ?_⟩
    rw [List.forall₂_map_right_iff]
    refine (hmem henc).mp (fun r r' hr hsame name => ?_) h
    rw [hfill hr.1 hr.2, hsame.2 name]

/-- The native and the generic path send the same rows exactly for tables without struct and list
cells. -/
theorem nativeAgrees_iff {columns : List String}
    (hcols : sdk.conformedColumns schema = .ok columns)
    (hperm : (table.names.map sdk.conformName).Perm columns) :
    (table.conform sdk).NativeAgrees sdk schema ↔
      ∀ column ∈ table.columns, ∀ v ∈ column, v.isContainer = false := by
  have hnodup : (table.conform sdk).names.Nodup :=
    hperm.nodup_iff.2 (Sdk.nodup_of_conformedColumns hcols)
  rw [nativeAgrees_iff_encodes hcols hperm, exists_forall₂_iff]
  have hrow : ∀ r ∈ (table.conform sdk).nativeRows,
      ((∃ r', sdk.encodeRecord r = .ok r' ∧ ∀ name, r.lookup name = r'.lookup name) ↔
        ∀ kv ∈ r, kv.2.isContainer = false) := by
    intro r hr
    refine Sdk.encodeRecord_agrees_iff ?_
    rw [keys_of_mem_nativeRows hr]
    exact hnodup
  rw [forall₂_congr hrow]
  exact @cells_nativeRows (table.conform sdk) fun v => v.isContainer = false

/-- The table with one column. -/
def single (name : String) (column : List Value) : ArrowTable where
  names := [name]
  columns := [column]
  numRows := column.length
  length_columns := rfl
  length_of_mem := by simp

/-- A table whose columns are not in the order of the schema. -/
def twoColumns : ArrowTable where
  names := ["name", "id"]
  columns := [[.str "a", .none], [.int 1, .int 2]]
  numRows := 2
  length_columns := rfl
  length_of_mem := by decide

/-- Its cells arrive in the same way on both paths. -/
theorem nativeAgrees_twoColumns :
    (twoColumns.conform .verbatim).NativeAgrees .verbatim
      (.object [("id", .typed (.one .integer) none), ("name", .typed (.one .string) none)]) := by
  have hperm : (twoColumns.names.map Sdk.verbatim.conformName).Perm ["id", "name"] :=
    List.Perm.swap "id" "name" []
  refine (nativeAgrees_iff rfl hperm).2 ?_
  simp [twoColumns, Value.isContainer]

/-- A list cell reaches the driver as a list on the native path, and as a text on the other. -/
theorem not_nativeAgrees_list :
    ¬ ((single "tags" [.list [.int 1]]).conform .verbatim).NativeAgrees .verbatim
      (.object [("tags", .typed (.one .array) none)]) := by
  rintro ⟨rows, hrows, hagree⟩
  obtain rfl : [[("tags", Value.str "[1]")]] = rows := Except.ok.inj hrows
  obtain ⟨hrow, -⟩ := List.forall₂_cons.1 hagree
  exact absurd (hrow "tags") (by simp [columnarRow, single, conform, Sdk.verbatim])

end ArrowTable

end TargetClickhouse
