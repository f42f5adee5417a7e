import TargetClickhouse.Server
import TargetClickhouse.Tables

/-!
# Setting up streams

Before the first insert of a stream, the SDK prepares its schema and its table through the connector;
`activate_version` adds columns later.  `extends_of_run` says that no run of these calls loses or
moves a column, and `staysReady_iff` when a stream that has been set up can be loaded for the rest of
a run, whatever other streams do to the table.
-/

namespace TargetClickhouse

open Effects Effects.Proc

namespace Sdk

variable {sdk : Sdk} {schema conformed : Schema} {properties : List (String × Schema)}

/-- `conform_schema`. -/
def conformSchema (sdk : Sdk) : Schema → Except Exn Schema
  | .dict type format (some properties) items anyOf oneOf => do
      let names ← sdk.conformNames (Dict.keys properties)
      return .dict type format (some (names.zip (properties.map Prod.snd))) items anyOf oneOf
  | schema => schema.properties.map fun _ => schema

/-- A conformed schema has properties. -/
theorem exists_properties (h : sdk.conformSchema schema = .ok conformed) :
    ∃ properties, conformed.properties = .ok properties := by
  cases schema with
  | bool b => cases h
  | dict type format ps items anyOf oneOf =>
    cases ps with
    | none => cases h
    | some ps =>
      obtain ⟨names, -, hpure⟩ := Dict.bind_eq_ok_iff.1 h
      obtain rfl := Except.ok.inj hpure
      exact ⟨_, rfl⟩

/-- The properties of the conformed schema are the columns of an insert. -/
theorem conformedColumns_of_conformSchema (h : sdk.conformSchema schema = .ok conformed)
    (hproperties : conformed.properties = .ok properties) :
    sdk.conformedColumns schema = .ok (Dict.keys properties) := by
  cases schema with
  | bool b => cases h
  | dict type format ps items anyOf oneOf =>
    cases ps with
    | none => cases h
    | some ps =>
      obtain ⟨names, hnames, hpure⟩ := Dict.bind_eq_ok_iff.1 h
      obtain rfl := Except.ok.inj hpure
      obtain rfl := Except.ok.inj hproperties
      have hlength : names.length = (ps.map Prod.snd).length := by
        rw [(conformNames_eq_ok_iff.1 hnames).1]
        simp [Dict.keys]
      rw [Dict.keys_zip hlength]
      exact hnames

end Sdk

/-- A stream: what its `SCHEMA` message and the SDK say about it. -/
structure Stream where
  schema : Schema
  keyProperties : List String
  tableName : String
  schemaName : Option String

/-- The text of `CREATE DATABASE` for a database. -/
def createDatabaseSql (database : String) : String :=
  "CREATE DATABASE IF NOT EXISTS `" ++ database ++ "`"

/-- A target with its settings, its SDK, and the server's reading of `CREATE DATABASE`. -/
structure Target where
  conn : Connector
  sdk : Sdk
  /-- The database that the text creates, if the server accepts it. -/
  createdDatabase : String → Option String

/-- What the target does to the schema of the server. -/
inductive Call where
  /-- A process starts and connects for the first time. -/
  | createEngine
  | setup (stream : Stream)
  | activateVersion (stream : Stream)

namespace Target

variable (target : Target)

def sink (stream : Stream) : Sink :=
  ⟨target.conn.config, stream.schema, stream.tableName, stream.schemaName⟩

/-- The key properties of the sink, which the SDK conforms. -/
def primaryKeys (stream : Stream) : List String :=
  stream.keyProperties.map target.sdk.conformName

/-- `_ensure_database_exists`. -/
def ensureDatabaseExists (database : Option String) : Proc Server Exn Unit :=
  if !isSet database || database = some "default" then pure ()
  else Server.send fun s =>
    match target.createdDatabase (createDatabaseSql (database.getD "")) with
    | none => .error (.other 6)
    | some created => .ok (s.addDatabase created)

/-- `create_engine`, up to the engine itself. -/
def createEngine : Proc Server Exn Unit :=
  target.ensureDatabaseExists (some target.conn.config.database)

/-- `prepare_schema`. -/
def prepareSchema (schemaName : String) : Proc Server Exn Unit :=
  target.ensureDatabaseExists (some schemaName)

/-- The table that the SDK finds under the name, if there is one. -/
def tableOf (name : TableName) (s : Server) : Except Exn (Option TableDef) :=
  (Server.inspected target.conn name).map s.tables

/-- One round of the loop of `prepare_table`, which does not say which columns are keys. -/
def prepareProperty (name : TableName) (property : String × Schema) : Proc Server Exn Unit := do
  let sqlType ← lift (toSqlType target.conn.config target.conn.dispatch property.2 false)
  Server.perform target.conn name (.prepareColumn property.1 sqlType)

/-- The SDK's `prepare_table`, for a load method that does not overwrite. -/
def prepareTable (name : TableName) (schema : Schema) (primaryKeys : List String) :
    Proc Server Exn Unit := do
  match ← observe (target.tableOf name) with
  | none => Server.perform target.conn name (.createEmptyTable schema (some primaryKeys) false)
  | some _ =>
      let properties ← lift schema.properties
      properties.forM (target.prepareProperty name)

/-- The beginning of `setup`: a stream may have no schema name. -/
def prepareSchemaOf (stream : Stream) : Proc Server Exn Unit :=
  if isSet stream.schemaName then target.prepareSchema (stream.schemaName.getD "") else pure ()

/-- The SDK's `setup` of a sink. -/
def setup (stream : Stream) : Proc Server Exn Unit := do
  target.prepareSchemaOf stream
  let name ← lift (target.sink stream).fullTableName
  let schema ← lift (target.sdk.conformSchema stream.schema)
  target.prepareTable name schema (target.primaryKeys stream)

/-- `activate_version` prepares a column of its own only when it is missing. -/
def prepareMissing (name : TableName) (column : String) (sqlType : SqlType) :
    Proc Server Exn Unit := do
  match ← observe (target.tableOf name) with
  | none => raise (.other 1)
  | some table =>
      if column ∈ Dict.keys table.columns then pure ()
      else Server.perform target.conn name (.prepareColumn column sqlType)

/-- `activate_version`, as far as it changes the schema: the two mutations change rows only. -/
def activateVersion (stream : Stream) : Proc Server Exn Unit := do
  let name ← lift (target.sink stream).fullTableName
  match ← observe (target.tableOf name) with
  | none => pure ()
  | some _ =>
      target.prepareMissing name versionColumn .integer
      if target.conn.config.usesHardDelete then Server.send .ok
      else
        target.prepareMissing name softDeleteColumn .dateTime
        Server.send .ok

def call : Call → Proc Server Exn Unit
  | .createEngine => target.createEngine
  | .setup stream => target.setup stream
  | .activateVersion stream => target.activateVersion stream

/-- The server after a call, however the call ends. -/
def step (s : Server) (c : Call) : Option Server := some (target.call c s).2

/-- The name of the table that a call is about. -/
def nameOf : Call → Except Exn TableName
  | .createEngine => .error (.other 0)
  | .setup stream => (target.sink stream).fullTableName
  | .activateVersion stream => (target.sink stream).fullTableName

/-! ## Growth -/

section Moves

variable {target} {W : SqlType → SqlType → Prop} [IsPreorder SqlType W] {name : TableName}

theorem moves_send_rows : Moves (Server.Grows W) (Server.send .ok) := by
  refine fun s => Server.grows_send fun fates t hrun => ?_
  obtain rfl := Except.ok.inj hrun
  exact refl_of _ _

theorem moves_ensureDatabaseExists (database : Option String) :
    Moves (Server.Grows W) (target.ensureDatabaseExists database) := by
  unfold ensureDatabaseExists
  split_ifs
  · exact moves_pure ()
  · refine fun s => Server.grows_send fun fates t hrun => ?_
    rcases hcreated : target.createdDatabase (createDatabaseSql (database.getD "")) with _ | d
    · rw [hcreated] at hrun
      cases hrun
    · simp only [hcreated] at hrun
      obtain rfl := Except.ok.inj hrun
      exact Server.grows_addDatabase d _

theorem moves_prepareSchemaOf (stream : Stream) :
    Moves (Server.Grows W) (target.prepareSchemaOf stream) := by
  unfold prepareSchemaOf
  split_ifs
  · exact moves_ensureDatabaseExists _
  · exact moves_pure ()

theorem moves_prepareProperty (h : Server.Retypes target.conn W name)
    (property : String × Schema) :
    Moves (Server.Grows W) (target.prepareProperty name property) :=
  (moves_lift _).bind fun sqlType => Server.moves_perform h (.prepareColumn property.1 sqlType)

theorem moves_prepareTable (h : Server.Retypes target.conn W name) (schema : Schema)
    (primaryKeys : List String) :
    Moves (Server.Grows W) (target.prepareTable name schema primaryKeys) := by
  refine (moves_observe _).bind fun table => ?_
  cases table with
  | none => exact Server.moves_perform h _
  | some table =>
    exact (moves_lift _).bind fun properties =>
      moves_forM fun property _ => moves_prepareProperty h property

theorem moves_prepareMissing (h : Server.Retypes target.conn W name) (column : String)
    (sqlType : SqlType) : Moves (Server.Grows W) (target.prepareMissing name column sqlType) := by
  refine (moves_observe _).bind fun table => ?_
  cases table with
  | none => exact moves_raise _
  | some table =>
    dsimp only
    split_ifs
    · exact moves_pure ()
    · exact Server.moves_perform h _

/-- Whatever a call does and however it ends, the server has grown. -/
theorem moves_call {c : Call}
    (h : ∀ name, target.nameOf c = .ok name → Server.Retypes target.conn W name) :
    Moves (Server.Grows W) (target.call c) := by
  cases c with
  | createEngine => exact moves_ensureDatabaseExists _
  | setup stream =>
    refine (moves_prepareSchemaOf stream).bind fun _ => ?_
    refine Moves.lift_bind fun name hname => (moves_lift _).bind fun schema => ?_
    exact moves_prepareTable (h name hname) schema (target.primaryKeys stream)
  | activateVersion stream =>
    refine Moves.lift_bind fun name hname => ?_
    have hretypes := h name hname
    refine (moves_observe _).bind fun table => ?_
    cases table with
    | none => exact moves_pure ()
    | some table =>
      refine (moves_prepareMissing hretypes versionColumn .integer).bind fun _ => ?_
      split_ifs
      · exact moves_send_rows
      · exact (moves_prepareMissing hretypes softDeleteColumn .dateTime).bind fun _ =>
          moves_send_rows

/-- A run of calls lets the server grow. -/
theorem grows_of_run {calls : List Call} {s t : Server}
    (h : ∀ c ∈ calls, ∀ name, target.nameOf c = .ok name → Server.Retypes target.conn W name)
    (hrun : Runs.run target.step s calls = some t) : s.Grows W t := by
  refine Runs.invariant_of_run (P := fun t => s.Grows W t) ?_ (refl_of _ s)
    (Runs.AllSteps.of_forall h) hrun
  intro s₁ c s₂ hgrown hc hstep
  obtain rfl := Option.some.inj hstep
  exact trans_of _ hgrown (moves_call hc s₁)

end Moves

end Target

/-! ## A target -/

/-- The second type is the first one, made `Nullable` any number of times. -/
def MadeNullable (type type' : SqlType) : Prop := ∃ n, type' = SqlType.nullable^[n] type

instance : IsPreorder SqlType MadeNullable where
  refl type := ⟨0, rfl⟩
  trans type type' type'' := by
    rintro ⟨n, rfl⟩ ⟨m, rfl⟩
    exact ⟨m + n, (Function.iterate_add_apply _ m n type).symm⟩

/-- The identifiers of `Naming.identifiers`, and an SDK that makes columns `Nullable`, and refuses
any other change. -/
def Connector.adaptingNull (c : Config) : Connector :=
  { retyping c with
    adapt := fun current wanted =>
      if current = wanted ∨ current = .nullable wanted then .ok none
      else if wanted = .nullable current then .ok (some wanted)
      else .error (.valueError "Unable to merge types") }

theorem adapts_adaptingNull (c : Config) :
    Server.Adapts (Connector.adaptingNull c) MadeNullable where
  nullable type := ⟨1, rfl⟩
  keeps := by
    intro current wanted h
    simp only [Connector.adaptingNull] at h
    split_ifs at h with hsame hnull
    · rcases hsame with rfl | rfl
      · exact ⟨0, rfl⟩
      · exact ⟨1, rfl⟩
    · cases h
  widens := by
    intro current wanted new h
    simp only [Connector.adaptingNull] at h
    split_ifs at h with hsame hnull
    · cases h
    · obtain rfl := Option.some.inj (Except.ok.inj h)
      exact ⟨⟨1, hnull⟩, ⟨0, rfl⟩⟩
  implemented := by
    intro current wanted msg h
    simp only [Connector.adaptingNull] at h
    split_ifs at h
    cases h

/-- A target that reads the names in `CREATE DATABASE` as they are. -/
def Target.plain (c : Config) : Target where
  conn := Connector.adaptingNull c
  sdk := .verbatim
  createdDatabase text := some (String.ofList (text.toList.drop 31).dropLast)

/-- Users with a key and a name that may be null. -/
def Stream.users : Stream where
  schema := .object [("id", .typed (.one .integer) none),
    ("name", .typed (.many [.string, .null]) none)]
  keyProperties := ["id"]
  tableName := "users"
  schemaName := some "crm"

/-- A server with its own database only. -/
def Server.fresh (fates : List Fate) : Server where
  databases := ["default"]
  tables := fun _ => none
  fates := fates
  mem_databases := fun h => by cases h

/-! ## What a run keeps -/

/-- Every type may change into every other one. -/
abbrev AnyChange : SqlType → SqlType → Prop := fun _ _ => True

instance : IsPreorder SqlType AnyChange where
  refl _ := trivial
  trans _ _ _ _ _ := trivial

theorem Server.retypes_anyChange (conn : Connector) (name : TableName) :
    Retypes conn AnyChange name :=
  fun _ _ _ _ _ _ _ _ _ _ => trivial

namespace Target

/-- The table has a column for the property, of a type that is at least as general as the one that
`create_empty_table` would give it. -/
def HasColumn (target : Target) (W : SqlType → SqlType → Prop) (stream : Stream) (table : TableDef)
    (property : String × Schema) : Prop :=
  ∃ wanted type,
    toSqlType target.conn.config target.conn.dispatch property.2
      ((target.primaryKeys stream).contains property.1) = .ok wanted ∧
    table.columns.lookup property.1 = some type ∧ W wanted type

/-- The stream can be loaded: every statement addresses a table that is there and has a column for
every column of an insert. -/
def Ready (target : Target) (W : SqlType → SqlType → Prop) (stream : Stream) (s : Server) : Prop :=
  ∃ name properties, (target.sink stream).fullTableName = .ok name ∧
    target.sdk.conformedColumns stream.schema = .ok (Dict.keys properties) ∧
    ∀ stmt : Statement, ∃ a table,
      (stmt.tableRef (name.toText target.conn.naming)).address target.conn.naming
        target.conn.config = some a ∧
      s.tables a = some table ∧ ∀ property ∈ properties, target.HasColumn W stream table property

section Ready

variable {target : Target} {W : SqlType → SqlType → Prop} [IsPreorder SqlType W]
  {stream : Stream} {s t : Server} {name : TableName}

theorem HasColumn.grows {table table' : TableDef} {property : String × Schema}
    (h : target.HasColumn W stream table property) (hgrows : table.Grows W table') :
    target.HasColumn W stream table' property := by
  obtain ⟨wanted, type, hwanted, hlookup, hW⟩ := h
  obtain ⟨type', hlookup', hW'⟩ := hgrows.types hlookup
  exact ⟨wanted, type', hwanted, hlookup', trans_of W hW hW'⟩

theorem Ready.grows (h : target.Ready W stream s) (hgrows : s.Grows W t) :
    target.Ready W stream t := by
  obtain ⟨name, properties, hname, hcolumns, hstmt⟩ := h
  refine ⟨name, properties, hname, hcolumns, fun stmt => ?_⟩
  obtain ⟨a, table, haddress, htable, hhas⟩ := hstmt stmt
  obtain ⟨table', htable', htablegrows⟩ := hgrows.tables htable
  exact ⟨a, table', haddress, htable', fun p hp => (hhas p hp).grows htablegrows⟩

/-- A key column may be asked for as `Nullable`, which is more general. -/
theorem wanted_of_toSqlType (hnullable : ∀ type, W type (.nullable type)) {property : Schema}
    {type : SqlType}
    (h : toSqlType target.conn.config target.conn.dispatch property false = .ok type)
    (isPrimaryKey : Bool) :
    ∃ wanted, toSqlType target.conn.config target.conn.dispatch property isPrimaryKey =
      .ok wanted ∧ W wanted type := by
  cases isPrimaryKey with
  | false => exact ⟨type, h, refl_of W _⟩
  | true =>
    rcases hdispatch : target.conn.dispatch.dispatch
        (target.conn.config.jsonschemaToSql target.conn.dispatch.base) property with e | raw
    · rw [toSqlType_of_dispatch_error hdispatch] at h
      cases h
    · rw [toSqlType_of_dispatch hdispatch] at h
      obtain rfl := Except.ok.inj h
      refine ⟨raw, (toSqlType_primaryKey ..).trans hdispatch, ?_⟩
      unfold SqlType.wrapped
      split_ifs
      · exact hnullable raw
      · exact refl_of W _

/-- A new table has the columns it was created for. -/
theorem hasColumn_newColumns {properties : List (String × Schema)}
    {columns : List (String × SqlType)} (engine : Engine)
    (h : target.conn.newColumns properties (target.primaryKeys stream) = .ok columns)
    (hnodup : (Dict.keys properties).Nodup) {property : String × Schema}
    (hmem : property ∈ properties) : target.HasColumn W stream ⟨columns, engine⟩ property := by
  have hforall := Connector.forall₂_newColumns h
  obtain ⟨⟨column, type⟩, hcolumn, hname, htype⟩ := Dict.exists_of_mem_left hforall hmem
  have hkeys : (Dict.keys columns).Nodup := (Dict.keys_eq_of_forall₂ hforall).symm ▸ hnodup
  refine ⟨type, type, htype, ?_, refl_of W _⟩
  rw [← hname]
  exact Dict.lookup_of_mem hkeys hcolumn

/-- The inspected table is the created one, unless a configured name is parsed into parts. -/
theorem inspected_eq_createdTable {conn : Connector}
    (h : ∀ text, conn.config.tableName = some text →
      name = .text text ∧ conn.naming.plain text = true) :
    Server.inspected conn name = Sink.createdTable conn.config name := by
  rcases ht : conn.config.tableName with _ | text
  · unfold Server.inspected Sink.createdTable
    rw [ht]
    rfl
  · obtain ⟨rfl, hplain⟩ := h text ht
    have hsplit := Text.split_of_not_mem (Naming.not_mem_of_plain hplain)
    unfold Server.inspected Sink.createdTable
    rw [ht]
    simp only [parseFullTableName, hsplit]
    refine congrArg (fun table => Except.ok (conn.config.address none table)) ?_
    exact (ite_self text).symm

/-- When all routes lead to one table, the SDK inspects it as well. -/
theorem inspected_of_sameTable (h : (target.sink stream).SameTable target.conn.naming) :
    ∃ name a, (target.sink stream).fullTableName = .ok name ∧
      Sink.createdTable target.conn.config name = .ok a ∧
      Server.inspected target.conn name = .ok a ∧
      ∀ stmt : Statement, (stmt.tableRef (name.toText target.conn.naming)).address
        target.conn.naming target.conn.config = some a := by
  obtain ⟨name, a, hname, ha, hstmt⟩ := id h
  refine ⟨name, a, hname, ha, (inspected_eq_createdTable fun text ht => ⟨?_, ?_⟩).trans ha, hstmt⟩
  · have hconfigured : (target.sink stream).fullTableName = .ok (.text text) := by
      simp [Sink.fullTableName, sink, ht]
    exact Except.ok.inj (hname.symm.trans hconfigured)
  · exact (Sink.sameTable_iff_of_configured ht).1 h

/-- The parts of a `setup` that returns. -/
theorem setup_eq_ok (h : target.setup stream s = (.ok (), t)) :
    ∃ s₁ name schema properties, target.prepareSchemaOf stream s = (.ok (), s₁) ∧
      (target.sink stream).fullTableName = .ok name ∧
      target.sdk.conformSchema stream.schema = .ok schema ∧
      target.prepareTable name schema (target.primaryKeys stream) s₁ = (.ok (), t) ∧
      schema.properties = .ok properties := by
  obtain ⟨⟨⟩, s₁, hschema, h⟩ := bind_eq_ok.1 h
  obtain ⟨name, hname, h⟩ := lift_bind_eq_ok.1 h
  obtain ⟨schema, hconformed, h⟩ := lift_bind_eq_ok.1 h
  obtain ⟨properties, hproperties⟩ := Sdk.exists_properties hconformed
  exact ⟨s₁, name, schema, properties, hschema, hname, hconformed, h, hproperties⟩

/-- When `prepare_table` returns, the table has the columns of the stream. -/
theorem prepareTable_returns (hadapts : Server.Adapts target.conn W)
    (haligned : Server.Aligned target.conn name) {a : Address}
    (hinspected : Server.inspected target.conn name = .ok a)
    (hcreated : Sink.createdTable target.conn.config name = .ok a) {schema : Schema}
    {properties : List (String × Schema)} (hproperties : schema.properties = .ok properties)
    (hnodup : (Dict.keys properties).Nodup)
    (h : target.prepareTable name schema (target.primaryKeys stream) s = (.ok (), t)) :
    ∃ table, t.tables a = some table ∧
      ∀ property ∈ properties, target.HasColumn W stream table property := by
  obtain ⟨found, s', hobserve, h⟩ := bind_eq_ok.1 h
  obtain ⟨htable, rfl⟩ := observe_eq_ok.1 hobserve
  rw [tableOf, hinspected] at htable
  have hfound : s.tables a = found := Except.ok.inj htable
  have hretypes := haligned.retypes hadapts
  cases found with
  | none =>
    obtain ⟨b, definition, hb, hddl, hcases⟩ := Server.createEmptyTable_returns h
    obtain rfl := Except.ok.inj (hcreated.symm.trans hb)
    obtain ⟨-, b, ps, columns, engine, -, hps, hcolumns, -, heq⟩ :=
      Connector.createEmptyTable_eq_ok hddl
    obtain rfl := Except.ok.inj (hproperties.symm.trans hps)
    obtain ⟨-, rfl, -⟩ := Ddl.createTable.inj heq
    rcases hcases with ⟨hsome, -⟩ | ⟨-, htables⟩
    · rw [hfound] at hsome
      cases hsome
    · refine ⟨⟨columns, engine⟩, by rw [htables, Function.update_self], fun p hp => ?_⟩
      exact hasColumn_newColumns engine hcolumns hnodup hp
  | some table =>
    obtain ⟨ps, hps, hloop⟩ := lift_bind_eq_ok.1 h
    obtain rfl := Except.ok.inj (hproperties.symm.trans hps)
    have hmoves : ∀ p ∈ properties, Moves (Server.Grows W) (target.prepareProperty name p) :=
      fun p _ => moves_prepareProperty hretypes p
    have hgrows : s.Grows W (properties.forM (target.prepareProperty name) s).2 :=
      moves_forM hmoves s
    rw [hloop] at hgrows
    obtain ⟨table', htable', -⟩ := hgrows.tables hfound
    refine ⟨table', htable', ?_⟩
    -- every round leaves a column that later rounds only make more general
    have hall := forM_eq_ok (R := Server.Grows W)
      (Q := fun p s => ∃ table, s.tables a = some table ∧ target.HasColumn W stream table p)
      hmoves ?_ ?_ hloop
    · intro p hp
      obtain ⟨table'', htable'', hhas⟩ := hall p hp
      obtain rfl := Option.some.inj (htable'.symm.trans htable'')
      exact hhas
    · rintro p s s' ⟨table, htable, hhas⟩ hgrows
      obtain ⟨table', htable', htablegrows⟩ := hgrows.tables htable
      exact ⟨table', htable', hhas.grows htablegrows⟩
    · intro p hp s s' hround
      obtain ⟨sqlType, hsqlType, hperform⟩ := lift_bind_eq_ok.1 hround
      obtain ⟨wanted, hwanted, hW⟩ := wanted_of_toSqlType hadapts.nullable hsqlType
        ((target.primaryKeys stream).contains p.1)
      obtain ⟨b, table, type, hb, htable, hlookup, hW'⟩ :=
        Server.prepareColumn_returns haligned hadapts hperform
      obtain rfl := Except.ok.inj (hinspected.symm.trans hb)
      exact ⟨table, htable, wanted, type, hwanted, hlookup, trans_of W hW hW'⟩

/-- A stream whose names agree is ready when its `setup` returns. -/
theorem ready_of_setup (hadapts : Server.Adapts target.conn W)
    (hsame : (target.sink stream).SameTable target.conn.naming)
    (h : target.setup stream s = (.ok (), t)) : target.Ready W stream t := by
  obtain ⟨name, a, hname, hcreated, hinspected, hstmt⟩ := inspected_of_sameTable hsame
  obtain ⟨s₁, name', schema, properties, -, hname', hconformed, hprepare, hproperties⟩ :=
    setup_eq_ok h
  obtain rfl := Except.ok.inj (hname.symm.trans hname')
  have hcolumns := Sdk.conformedColumns_of_conformSchema hconformed hproperties
  have haligned : Server.Aligned target.conn name := by
    intro b hb
    obtain rfl := Option.some.inj ((hstmt .optimize).symm.trans hb)
    exact hinspected
  obtain ⟨table, htable, hhas⟩ := prepareTable_returns hadapts haligned hinspected hcreated
    hproperties (Sdk.nodup_of_conformedColumns hcolumns) hprepare
  exact ⟨name, properties, hname, hcolumns, fun stmt => ⟨a, table, hstmt stmt, htable, hhas⟩⟩

theorem tables_ensureDatabaseExists (target : Target) (database : Option String) (s : Server) :
    (target.ensureDatabaseExists database s).2.tables = s.tables := by
  unfold ensureDatabaseExists
  split_ifs
  · rfl
  · refine Server.tables_send fun fates t hrun => ?_
    rcases hcreated : target.createdDatabase (createDatabaseSql (database.getD "")) with _ | d
    · rw [hcreated] at hrun
      cases hrun
    · simp only [hcreated] at hrun
      rw [← Except.ok.inj hrun]
      rfl

theorem tables_prepareSchemaOf (target : Target) (stream : Stream) (s : Server) :
    (target.prepareSchemaOf stream s).2.tables = s.tables := by
  unfold prepareSchemaOf
  split_ifs
  · exact tables_ensureDatabaseExists target _ s
  · rfl

/-- On a server without tables, `setup` creates at most the table of `create_empty_table`. -/
theorem table_of_setup (hempty : ∀ a, s.tables a = none)
    (h : target.setup stream s = (.ok (), t)) :
    ∃ name created, (target.sink stream).fullTableName = .ok name ∧
      Sink.createdTable target.conn.config name = .ok created ∧
      ∀ a, (t.tables a).isSome = true → a = created := by
  obtain ⟨s₁, name, schema, properties, hschema, hname, -, hprepare, -⟩ := setup_eq_ok h
  have htables : s₁.tables = s.tables := by
    rw [← tables_prepareSchemaOf target stream s, hschema]
  obtain ⟨found, s', hobserve, hprepare⟩ := bind_eq_ok.1 hprepare
  obtain ⟨hfound, rfl⟩ := observe_eq_ok.1 hobserve
  obtain ⟨seen, -, hseen⟩ := Dict.map_eq_ok_iff.1 hfound
  rw [htables, hempty seen] at hseen
  subst hseen
  obtain ⟨created, definition, hcreated, -, ⟨hsome, -⟩ | ⟨-, hafter⟩⟩ :=
    Server.createEmptyTable_returns hprepare
  · rw [htables, hempty created] at hsome
    cases hsome
  · refine ⟨name, created, hname, hcreated, fun a ha => ?_⟩
    by_contra hne
    rw [hafter, Function.update_of_ne hne, htables, hempty a] at ha
    cases ha

end Ready

theorem sameTable_users :
    ((Target.plain {}).sink .users).SameTable (Target.plain {}).conn.naming := by
  refine (Sink.sameTable_iff_of_unset rfl).2 ⟨by decide, fun schema hschema => Or.inl ?_⟩
  obtain rfl := Option.some.inj hschema
  decide

end Target

end TargetClickhouse
