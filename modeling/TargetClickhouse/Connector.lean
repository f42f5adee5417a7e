import TargetClickhouse.Names
import TargetClickhouse.SqlTypes
import TargetClickhouse.Engine

/-!
# The connector's DDL

The statements with which the connector creates a table, adds a column and changes the type of a
column, and what one server does with them.
-/

namespace TargetClickhouse

/-- The definition of a table: its columns in order, and its engine. -/
structure TableDef where
  columns : List (String × SqlType)
  engine : Engine
  deriving DecidableEq, Repr

/-- The statements that change a table; `onCluster` is the cluster of the `ON CLUSTER` clause. -/
inductive Ddl where
  | createTable (table : Address) (definition : TableDef) (onCluster : Option String)
  /-- `ADD COLUMN IF NOT EXISTS`. -/
  | addColumn (table column : String) (type : SqlType) (onCluster : Option String)
  | modifyColumn (table column : String) (type : SqlType) (onCluster : Option String)
  deriving DecidableEq, Repr

namespace Ddl

def onCluster : Ddl → Option String
  | createTable _ _ cluster => cluster
  | addColumn _ _ _ cluster => cluster
  | modifyColumn _ _ _ cluster => cluster

/-- The table on a server that runs the statement; a statement that fails changes nothing. -/
def apply : Ddl → Option TableDef → Option TableDef
  | createTable _ definition _, none => some definition
  | createTable _ _ _, some t => some t
  | addColumn _ _ _ _, none => none
  | addColumn _ column type _, some t =>
      if column ∈ Dict.keys t.columns then some t
      else some { t with columns := t.columns ++ [(column, type)] }
  | modifyColumn _ _ _ _, none => none
  | modifyColumn _ column type _, some t =>
      if column ∈ Dict.keys t.columns then
        some { t with columns := Dict.set t.columns column type }
      else some t

end Ddl

/-- The connector: its settings, the SDK's type mapping, the dialect, and two functions of other
packages. -/
structure Connector where
  config : Config
  dispatch : SqlDispatch
  naming : Naming
  /-- The type that the SDK's `_adapt_column_type` changes a column of the first type to, when it is
  to hold the second one; `none` when the column stays as it is. -/
  adapt : SqlType → SqlType → Except Exn (Option SqlType)
  /-- `str` of a schema. -/
  schemaText : Schema → String

namespace Connector

variable (conn : Connector)

/-- The cluster of the statements that get an `ON CLUSTER` clause. -/
def cluster : Option String :=
  if isSet conn.config.clusterName then conn.config.clusterName else none

/-- `schema["properties"]`, with its `KeyError` reported as a `RuntimeError`. -/
def schemaProperties (fullTableName : TableName) (schema : Schema) :
    Except Exn (List (String × Schema)) :=
  match schema.properties with
  | .error (.keyError _) =>
      .error (.runtimeError ("Schema for '" ++ fullTableName.toText conn.naming ++
        "' does not define properties: " ++ conn.schemaText schema))
  | properties => properties

/-- The columns of a new table. -/
def newColumns (properties : List (String × Schema)) (primaryKeys : List String) :
    Except Exn (List (String × SqlType)) :=
  properties.mapM fun (name, property) => do
    let sqlType ← toSqlType conn.config conn.dispatch property (primaryKeys.contains name)
    return (name, sqlType)

/-- `config.get("engine_type")`, or the default engine. -/
def engineType : String :=
  if isSet conn.config.engineType then conn.config.engineType.getD ""
  else SupportedEngine.mergeTree.value

/-- The statement of `create_empty_table`. -/
def createEmptyTable (fullTableName : TableName) (schema : Schema)
    (primaryKeys : Option (List String)) (asTempTable : Bool) : Except Exn Ddl :=
  if asTempTable then .error (.notImplementedError "Temporary tables are not supported.")
  else do
    let address ← Sink.createdTable conn.config fullTableName
    let primaryKeys := primaryKeys.getD []
    let properties ← conn.schemaProperties fullTableName schema
    let columns ← conn.newColumns properties primaryKeys
    let engine ← createEngineWrapper conn.engineType primaryKeys address.table (some conn.config)
      conn.config.orderByKeys
    return .createTable address ⟨columns, engine⟩ conn.cluster

/-- `get_column_add_ddl`, a static method that does not see the settings. -/
def getColumnAddDdl (table column : String) (type : SqlType) : Ddl :=
  .addColumn table column type none

/-- `get_column_alter_ddl`. -/
def getColumnAlterDdl (table column : String) (type : SqlType) : Ddl :=
  .modifyColumn table column type conn.cluster

/-- The statement of `prepare_column` for a table with the definition, if it issues one. -/
def prepareColumn (fullTableName : TableName) (table : TableDef) (column : String)
    (sqlType : SqlType) : Except Exn (Option Ddl) :=
  match table.columns.lookup column with
  | none => .ok (some (getColumnAddDdl (fullTableName.toText conn.naming) column sqlType))
  | some current =>
      match conn.adapt current sqlType with
      | .ok adapted =>
          .ok (adapted.map (conn.getColumnAlterDdl (fullTableName.toText conn.naming) column))
      | .error (.notImplementedError _) => .ok none
      | .error e => .error e

variable {conn}

theorem cluster_isSome_iff : conn.cluster.isSome ↔ isSet conn.config.clusterName = true := by
  unfold cluster
  cases hname : conn.config.clusterName with
  | none => simp [isSet]
  | some name => split_ifs with h <;> simp [h]

/-- A column for every property, in the order of the schema. -/
theorem forall₂_newColumns {properties : List (String × Schema)} {primaryKeys : List String}
    {columns : List (String × SqlType)}
    (h : conn.newColumns properties primaryKeys = .ok columns) :
    List.Forall₂ (fun p column => column.1 = p.1 ∧
      toSqlType conn.config conn.dispatch p.2 (primaryKeys.contains p.1) = .ok column.2)
      properties columns := by
  refine (Dict.mapM_eq_ok_iff.1 h).imp ?_
  rintro ⟨name, property⟩ ⟨name', t⟩ hcolumn
  obtain ⟨t', ht, hpure⟩ := Dict.bind_eq_ok_iff.1 hcolumn
  obtain ⟨rfl, rfl⟩ := Prod.mk.inj (Except.ok.inj hpure)
  exact ⟨rfl, ht⟩

/-- What `create_empty_table` issues. -/
theorem createEmptyTable_eq_ok {fullTableName : TableName} {schema : Schema}
    {primaryKeys : Option (List String)} {asTempTable : Bool} {ddl : Ddl}
    (h : conn.createEmptyTable fullTableName schema primaryKeys asTempTable = .ok ddl) :
    asTempTable = false ∧ ∃ address properties columns engine,
      Sink.createdTable conn.config fullTableName = .ok address ∧
      schema.properties = .ok properties ∧
      conn.newColumns properties (primaryKeys.getD []) = .ok columns ∧
      createEngineWrapper conn.engineType (primaryKeys.getD []) address.table (some conn.config)
        conn.config.orderByKeys = .ok engine ∧
      ddl = .createTable address ⟨columns, engine⟩ conn.cluster := by
  unfold createEmptyTable at h
  split_ifs at h with htemp
  obtain ⟨address, haddress, h⟩ := Dict.bind_eq_ok_iff.1 h
  obtain ⟨properties, hproperties, h⟩ := Dict.bind_eq_ok_iff.1 h
  obtain ⟨columns, hcolumns, h⟩ := Dict.bind_eq_ok_iff.1 h
  obtain ⟨engine, hengine, h⟩ := Dict.bind_eq_ok_iff.1 h
  refine ⟨by simpa using htemp, address, properties, columns, engine, haddress, ?_, hcolumns,
    hengine, (Except.ok.inj h).symm⟩
  unfold schemaProperties at hproperties
  split at hproperties
  · cases hproperties
  · exact hproperties

/-- `prepare_column` adds a column that is missing, and otherwise changes the column or leaves
it. -/
theorem prepareColumn_eq_ok {fullTableName : TableName} {table : TableDef} {column : String}
    {sqlType : SqlType} {issued : Option Ddl}
    (h : conn.prepareColumn fullTableName table column sqlType = .ok issued) :
    (column ∉ Dict.keys table.columns ∧
        issued = some (getColumnAddDdl (fullTableName.toText conn.naming) column sqlType)) ∨
      (column ∈ Dict.keys table.columns ∧
        ∀ ddl, issued = some ddl → ∃ adapted,
          ddl = conn.getColumnAlterDdl (fullTableName.toText conn.naming) column adapted) := by
  unfold prepareColumn at h
  rcases hlookup : table.columns.lookup column with _ | current
  · rw [hlookup] at h
    refine Or.inl ⟨fun hmem => ?_, (Except.ok.inj h).symm⟩
    have hsome := Dict.lookup_isSome_iff.2 hmem
    rw [hlookup] at hsome
    cases hsome
  · simp only [hlookup] at h
    refine Or.inr ⟨Dict.lookup_isSome_iff.1 (by rw [hlookup]; rfl), ?_⟩
    intro ddl hddl
    rcases hadapt : conn.adapt current sqlType with e | adapted
    · rw [hadapt] at h
      cases e with
      | notImplementedError _ =>
        obtain rfl := Except.ok.inj h
        cases hddl
      | _ => cases h
    · rw [hadapt] at h
      obtain rfl := Except.ok.inj h
      obtain ⟨t, -, rfl⟩ := Option.map_eq_some_iff.1 hddl
      exact ⟨t, rfl⟩

/-- The identifiers of `Naming.identifiers`, and an SDK that changes every column to the type that
it is prepared for. -/
def retyping (c : Config) : Connector where
  config := c
  dispatch := .formatsFirst
  naming := .identifiers
  adapt current sqlType := .ok (if current = sqlType then none else some sqlType)
  schemaText _ := ""

end Connector

end TargetClickhouse
