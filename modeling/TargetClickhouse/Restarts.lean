import TargetClickhouse.Setups

/-!
# The first setup of a stream, and later ones

A table can be created only in a database that exists.  `databaseExists_iff` says for which names the
target has created it before.  A later process sets the stream up again: `restart_iff` says when this
leaves the table as the first setup created it, and `recovers_of_run` that it completes a setup that
was interrupted.
-/

namespace TargetClickhouse

open Effects Effects.Proc

namespace Server

variable {conn : Connector} {name : TableName} {s : Server}

/-- An operation keeps the server, or it takes a fate. -/
theorem perform_stays_or_takes (conn : Connector) (name : TableName) (op : SchemaOp) (s : Server) :
    (perform conn name op s).2 = s ∨
      (perform conn name op s).2.fates.length < s.fates.length := by
  unfold perform
  rw [bind_apply]
  rcases hissued : issued conn name op s with e | issue
  · left
    rw [observe, hissued]
    rfl
  · rw [(observe_eq_ok (f := issued conn name op)).2 ⟨hissued, rfl⟩]
    cases issue with
    | none => exact Or.inl rfl
    | some ddl =>
      refine (send_cases (execute conn ddl) s).imp_right ?_
      rintro ⟨fate, fates, hfates, hlost | hrun⟩
      · show (send (execute conn ddl) s).2.fates.length < s.fates.length
        rw [hlost, hfates]
        exact Nat.lt_succ_self _
      · obtain ⟨a, hdatabase, -, -, heq⟩ := execute_eq_ok hrun
        show (send (execute conn ddl) s).2.fates.length < s.fates.length
        rw [heq, hfates]
        exact Nat.lt_succ_self _

/-- An operation returns without a change exactly when it issues nothing. -/
theorem perform_eq_self_iff {op : SchemaOp} :
    perform conn name op s = (.ok (), s) ↔ issued conn name op s = .ok none := by
  constructor
  · intro h
    rcases perform_eq_ok h with ⟨hissued, -⟩ | ⟨ddl, fates, hfates, -, hrun⟩
    · exact hissued
    · -- the statement has taken a fate
      obtain ⟨a, hdatabase, -, -, heq⟩ := execute_eq_ok hrun
      have htaken : s.fates = fates := congrArg Server.fates heq
      rw [hfates] at htaken
      exact absurd htaken (by simp)
  · intro h
    exact bind_of_ok (observe_eq_ok.2 ⟨h, rfl⟩)

/-- `prepare_column` issues nothing for a column whose type the SDK keeps or cannot adapt. -/
theorem prepareColumn_issues_none_iff (name : TableName) {t : TableDef} {column : String}
    {current wanted : SqlType} (h : t.columns.lookup column = some current) :
    conn.prepareColumn name t column wanted = .ok none ↔
      conn.adapt current wanted = .ok none ∨
        ∃ msg, conn.adapt current wanted = .error (.notImplementedError msg) := by
  unfold Connector.prepareColumn
  rw [h]
  dsimp only
  rcases conn.adapt current wanted with e | adapted
  · cases e <;> simp
  · cases adapted <;> simp

/-- `CREATE TABLE` for a missing table needs the database, and nothing else. -/
theorem createEmptyTable_answered {schema : Schema} {keys : Option (List String)}
    {asTempTable : Bool} {a : Address} {definition : TableDef} {cluster : Option String}
    {fates : List Fate}
    (hddl : conn.createEmptyTable name schema keys asTempTable =
      .ok (.createTable a definition cluster)) (hfates : s.fates = .answered :: fates) :
    (perform conn name (.createEmptyTable schema keys asTempTable) s).1 = .ok () ↔
      a.database ∈ s.databases := by
  obtain ⟨-, a', -, columns, engine, ha, -, -, -, heq⟩ := Connector.createEmptyTable_eq_ok hddl
  obtain ⟨rfl, -, -⟩ := Ddl.createTable.inj heq
  have hissued : issued conn name (.createEmptyTable schema keys asTempTable) s =
      .ok (if (s.tables a).isSome then none else some (.createTable a definition cluster)) := by
    refine Dict.bind_eq_ok_iff.2 ⟨a, ha, ?_⟩
    exact Dict.bind_eq_ok_iff.2 ⟨_, hddl, rfl⟩
  rcases htable : s.tables a with _ | table
  · rw [htable] at hissued
    have hperform : perform conn name (.createEmptyTable schema keys asTempTable) s =
        send (execute conn (.createTable a definition cluster)) s :=
      bind_of_ok (observe_eq_ok.2 ⟨hissued, rfl⟩)
    have hruns : (Ddl.createTable a definition cluster).runsOn ((s.withFates fates).tables a) =
        true := by
      rw [show (s.withFates fates).tables a = none from htable]
      rfl
    rw [hperform, send, hfates]
    by_cases hdatabase : a.database ∈ s.databases
    · have hexecute : ∃ t, execute conn (.createTable a definition cluster) (s.withFates fates) =
          .ok t :=
        ⟨_, (dif_pos (show a.database ∈ (s.withFates fates).databases from hdatabase)).trans
          (if_pos hruns)⟩
      obtain ⟨t, ht⟩ := hexecute
      simp only [ht, hdatabase]
    · have hexecute : execute conn (.createTable a definition cluster) (s.withFates fates) =
          .error (.other 5) := dif_neg hdatabase
      simp [hexecute, hdatabase]
  · rw [htable] at hissued
    have hperform : perform conn name (.createEmptyTable schema keys asTempTable) s =
        (.ok (), s) := bind_of_ok (observe_eq_ok.2 ⟨hissued, rfl⟩)
    rw [hperform]
    exact iff_of_true rfl (s.mem_databases htable)

/-- However `create_empty_table` ends, at most its own table is new. -/
theorem tables_createEmptyTable {schema : Schema} {keys : Option (List String)}
    {asTempTable : Bool} {a : Address} {definition : TableDef} {cluster : Option String}
    (hddl : conn.createEmptyTable name schema keys asTempTable =
      .ok (.createTable a definition cluster)) (s : Server) :
    (perform conn name (.createEmptyTable schema keys asTempTable) s).2.tables = s.tables ∨
      (perform conn name (.createEmptyTable schema keys asTempTable) s).2.tables =
        Function.update s.tables a (some definition) := by
  unfold perform
  refine bind_induction (P := fun t : Server => t.tables = s.tables ∨
    t.tables = Function.update s.tables a (some definition)) ?_ fun issue t hlook => ?_
  · exact Or.inl (congrArg tables (observe_snd _ s))
  · obtain ⟨hissued, rfl⟩ := observe_eq_ok.1 hlook
    cases issue with
    | none => exact Or.inl rfl
    | some ddl =>
      obtain ⟨b, -, htable, hddl'⟩ := issued_createEmptyTable hissued
      obtain rfl := Except.ok.inj (hddl'.symm.trans hddl)
      rcases send_cases (execute conn (.createTable a definition cluster)) s with
        hstay | ⟨-, fates, -, hlost | hrun⟩
      · exact Or.inl (congrArg tables hstay)
      · exact Or.inl ((congrArg tables hlost).trans rfl)
      · right
        obtain ⟨a', hdatabase, ha', hruns, heq⟩ := execute_eq_ok hrun
        obtain rfl := Option.some.inj ha'
        show (send (execute conn (.createTable a definition cluster)) s).2.tables = _
        rw [heq, Option.isNone_iff_eq_none.1 hruns]
        rfl

end Server

namespace Target

variable {target : Target} {stream : Stream} {s t : Server}

/-! ## Databases -/

/-- `_ensure_database_exists` for the name sends a statement that creates the database. -/
def EnsuredAs (target : Target) (name database : String) : Prop :=
  name ≠ "" ∧ name ≠ "default" ∧
    target.createdDatabase (createDatabaseSql name) = some database

/-- The target creates the database itself: when it connects, or for the schema of the stream. -/
def Creates (target : Target) (stream : Stream) (database : String) : Prop :=
  target.EnsuredAs target.conn.config.database database ∨
    ∃ name, stream.schemaName = some name ∧ target.EnsuredAs name database

theorem prepareSchemaOf_eq (target : Target) (stream : Stream) :
    target.prepareSchemaOf stream = target.ensureDatabaseExists stream.schemaName := by
  unfold prepareSchemaOf prepareSchema ensureDatabaseExists
  cases hname : stream.schemaName with
  | none => rfl
  | some name => by_cases hempty : name = "" <;> simp [isSet, hempty]

/-- A database that is ensured is there afterwards. -/
theorem mem_databases_of_ensured {name database : String} (hensured : target.EnsuredAs name database)
    (h : target.ensureDatabaseExists (some name) s = (.ok (), t)) : database ∈ t.databases := by
  obtain ⟨hne, hdefault, hcreated⟩ := hensured
  unfold ensureDatabaseExists at h
  rw [if_neg (by simp [isSet, hne, hdefault])] at h
  obtain ⟨fates, -, heffect⟩ := Server.send_eq_ok h
  simp only [Option.getD_some, hcreated] at heffect
  rw [← Except.ok.inj heffect]
  exact List.mem_insert_self

/-- With an answer at hand it returns, and adds nothing but the ensured database. -/
theorem ensureDatabaseExists_answered (database : Option String) {fates : List Fate}
    (haccepts : ∀ name, database = some name →
      (target.createdDatabase (createDatabaseSql name)).isSome = true)
    (hfates : s.fates = .answered :: fates) :
    ∃ t, target.ensureDatabaseExists database s = (.ok (), t) ∧
      (t.fates = s.fates ∨ t.fates = fates) ∧
      ∀ d ∈ t.databases, d ∈ s.databases ∨ ∃ name, database = some name ∧ target.EnsuredAs name d := by
  unfold ensureDatabaseExists
  split_ifs with hskip
  · exact ⟨s, rfl, Or.inl rfl, fun d hd => Or.inl hd⟩
  · obtain _ | name := database
    · simp [isSet] at hskip
    · obtain ⟨created, hcreated⟩ := Option.isSome_iff_exists.1 (haccepts name rfl)
      have hname : name ≠ "" ∧ name ≠ "default" := by simpa [isSet] using hskip
      refine ⟨(s.withFates fates).addDatabase created, ?_, Or.inr rfl, fun d hd => ?_⟩
      · simp [Server.send, hfates, hcreated]
      · rcases List.mem_insert_iff.1 hd with rfl | hd
        · exact Or.inr ⟨name, rfl, hname.1, hname.2, hcreated⟩
        · exact Or.inl hd

/-- The default database, and one that the target creates, is there once the schema of the stream is
prepared. -/
theorem mem_databases_of_creates {database : String} {s₁ u : Server}
    (hcreates : database = "default" ∨ target.Creates stream database)
    (hdefault : "default" ∈ s.databases) (hengine : target.createEngine s = (.ok (), s₁))
    (hgrows : s₁.Grows AnyChange t) (hschema : target.prepareSchemaOf stream t = (.ok (), u)) :
    database ∈ u.databases := by
  rw [prepareSchemaOf_eq] at hschema
  have hstart : s.Grows AnyChange (target.createEngine s).2 := moves_ensureDatabaseExists _ s
  have hend : t.Grows AnyChange (target.ensureDatabaseExists stream.schemaName t).2 :=
    moves_ensureDatabaseExists _ t
  rw [hengine] at hstart
  rw [hschema] at hend
  rcases hcreates with rfl | hensured | ⟨d, hd, hensured⟩
  · exact hend.databases _ (hgrows.databases _ (hstart.databases _ hdefault))
  · exact hend.databases _ (hgrows.databases _ (mem_databases_of_ensured hensured hengine))
  · rw [hd] at hschema
    exact mem_databases_of_ensured hensured hschema

/-- A round of `prepare_table` keeps the server, or it takes a fate. -/
theorem prepareProperty_stays_or_takes (target : Target) (name : TableName)
    (property : String × Schema) (s : Server) :
    (target.prepareProperty name property s).2 = s ∨
      (target.prepareProperty name property s).2.fates.length < s.fates.length := by
  unfold prepareProperty
  rcases toSqlType target.conn.config target.conn.dispatch property.2 false with e | sqlType
  · exact Or.inl rfl
  · exact Server.perform_stays_or_takes target.conn name (.prepareColumn property.1 sqlType) s

/-- The SDK does not adapt the columns of the keys, which `prepare_table` asks for as columns that
are no keys. -/
def KeepsKeys (target : Target) (stream : Stream) (properties : List (String × Schema)) : Prop :=
  ∀ property ∈ properties, property.1 ∈ target.primaryKeys stream → ∀ type,
    target.conn.dispatch.dispatch (target.conn.config.jsonschemaToSql target.conn.dispatch.base)
      property.2 = .ok type →
    target.conn.adapt type (type.wrapped property.2) = .ok none ∨
      ∃ msg, target.conn.adapt type (type.wrapped property.2) = .error (.notImplementedError msg)

/-- A round on the column that `create_empty_table` made of the property. -/
theorem prepareProperty_eq_self_iff (hrefl : ∀ type, target.conn.adapt type type = .ok none)
    {name : TableName} {a : Address} (hinspected : Server.inspected target.conn name = .ok a)
    {table : TableDef} (htable : s.tables a = some table) {property : String × Schema}
    {isPrimaryKey : Bool} {current : SqlType}
    (hcurrent : toSqlType target.conn.config target.conn.dispatch property.2 isPrimaryKey =
      .ok current) (hlookup : table.columns.lookup property.1 = some current) :
    target.prepareProperty name property s = (.ok (), s) ↔
      (isPrimaryKey = true → ∀ type, target.conn.dispatch.dispatch
          (target.conn.config.jsonschemaToSql target.conn.dispatch.base) property.2 = .ok type →
        target.conn.adapt type (type.wrapped property.2) = .ok none ∨ ∃ msg,
          target.conn.adapt type (type.wrapped property.2) = .error (.notImplementedError msg)) := by
  have hissued : ∀ wanted, Server.issued target.conn name (.prepareColumn property.1 wanted) s =
      .ok none ↔ target.conn.adapt current wanted = .ok none ∨
        ∃ msg, target.conn.adapt current wanted = .error (.notImplementedError msg) := by
    intro wanted
    rw [← Server.prepareColumn_issues_none_iff name hlookup]
    unfold Server.issued Server.subject
    rw [hinspected, Dict.bind_eq_ok_iff]
    simp [htable, Connector.issued]
  rcases hdispatch : target.conn.dispatch.dispatch
      (target.conn.config.jsonschemaToSql target.conn.dispatch.base) property.2 with e | type
  · rw [toSqlType_of_dispatch_error hdispatch] at hcurrent
    cases hcurrent
  · have hwanted := toSqlType_of_dispatch hdispatch
    unfold prepareProperty
    rw [hwanted, lift_ok_bind, Server.perform_eq_self_iff, hissued]
    cases isPrimaryKey with
    | false =>
      obtain rfl := Except.ok.inj (hwanted.symm.trans hcurrent)
      simp [hrefl]
    | true =>
      rw [toSqlType_primaryKey, hdispatch] at hcurrent
      obtain rfl := Except.ok.inj hcurrent
      simp

/-- The setup of the stream creates a table with this definition at this address, and all statements
about the stream address it. -/
structure Declares (target : Target) (stream : Stream) (name : TableName) (schema : Schema)
    (properties : List (String × Schema)) (a : Address) (definition : TableDef) : Prop where
  same : (target.sink stream).SameTable target.conn.naming
  name_eq : (target.sink stream).fullTableName = .ok name
  conformed : target.sdk.conformSchema stream.schema = .ok schema
  properties_eq : schema.properties = .ok properties
  created : target.conn.createEmptyTable name schema (some (target.primaryKeys stream)) false =
    .ok (.createTable a definition target.conn.cluster)

section Declares

variable {name : TableName} {schema : Schema} {properties : List (String × Schema)} {a : Address}
  {definition : TableDef}

theorem Declares.inspected (h : target.Declares stream name schema properties a definition) :
    Server.inspected target.conn name = .ok a := by
  obtain ⟨-, b, ps, columns, engine, hb, -, -, -, heq⟩ := Connector.createEmptyTable_eq_ok h.created
  obtain ⟨rfl, -, -⟩ := Ddl.createTable.inj heq
  obtain ⟨name', a', hname', ha', hinspected, -⟩ := inspected_of_sameTable h.same
  obtain rfl := Except.ok.inj (h.name_eq.symm.trans hname')
  obtain rfl := Except.ok.inj (hb.symm.trans ha')
  exact hinspected

/-- The loop over the properties runs when the table is there. -/
theorem Declares.prepareTable_eq_forM
    (h : target.Declares stream name schema properties a definition) {table : TableDef}
    (htable : s.tables a = some table) :
    target.prepareTable name schema (target.primaryKeys stream) s =
      properties.forM (target.prepareProperty name) s := by
  have hfound : target.tableOf name s = .ok (some table) := by
    rw [tableOf, h.inspected, ← htable]
    rfl
  refine (bind_of_ok (observe_eq_ok.2 ⟨hfound, rfl⟩)).trans ?_
  exact bind_of_ok (lift_eq_ok.2 ⟨h.properties_eq, rfl⟩)

/-- A round of the loop does nothing exactly when the SDK keeps the column of a key. -/
theorem Declares.prepareProperty_eq_self_iff
    (h : target.Declares stream name schema properties a definition)
    (hrefl : ∀ type, target.conn.adapt type type = .ok none)
    (htable : s.tables a = some definition) {property : String × Schema}
    (hmem : property ∈ properties) :
    target.prepareProperty name property s = (.ok (), s) ↔
      (property.1 ∈ target.primaryKeys stream → ∀ type,
        target.conn.dispatch.dispatch (target.conn.config.jsonschemaToSql target.conn.dispatch.base)
          property.2 = .ok type →
        target.conn.adapt type (type.wrapped property.2) = .ok none ∨ ∃ msg,
          target.conn.adapt type (type.wrapped property.2) = .error (.notImplementedError msg)) := by
  obtain ⟨-, b, ps, columns, engine, -, hps, hcolumns, -, heq⟩ :=
    Connector.createEmptyTable_eq_ok h.created
  obtain ⟨-, rfl, -⟩ := Ddl.createTable.inj heq
  obtain rfl := Except.ok.inj (h.properties_eq.symm.trans hps)
  have hforall := Connector.forall₂_newColumns hcolumns
  obtain ⟨⟨column, current⟩, hcolumn, hcolumnName, hcurrent⟩ :=
    Dict.exists_of_mem_left hforall hmem
  have hnodup := Sdk.nodup_of_conformedColumns
    (Sdk.conformedColumns_of_conformSchema h.conformed h.properties_eq)
  have hkeys : (Dict.keys columns).Nodup := (Dict.keys_eq_of_forall₂ hforall).symm ▸ hnodup
  have hlookup : columns.lookup property.1 = some current := by
    rw [← hcolumnName]
    exact Dict.lookup_of_mem hkeys hcolumn
  rw [Target.prepareProperty_eq_self_iff hrefl h.inspected htable hcurrent hlookup]
  exact imp_congr_left List.contains_iff_mem

/-- A key that is neither a date nor null keeps its column. -/
theorem keepsKeys_users : (Target.plain {}).KeepsKeys .users
    [("id", .typed (.one .integer) none), ("name", .typed (.many [.string, .null]) none)] := by
  intro property hmem hkey type htype
  rcases List.mem_pair.1 hmem with rfl | rfl
  · obtain rfl := Except.ok.inj htype
    exact Or.inl rfl
  · exact absurd hkey (by decide)

/-- What a process does first for a stream. -/
def start (target : Target) (stream : Stream) : Proc Server Exn Unit := do
  target.createEngine
  target.setup stream

theorem Declares.prepareTable_eq_self
    (h : target.Declares stream name schema properties a definition)
    (hrefl : ∀ type, target.conn.adapt type type = .ok none)
    (hkeeps : target.KeepsKeys stream properties) (htable : s.tables a = some definition) :
    target.prepareTable name schema (target.primaryKeys stream) s = (.ok (), s) := by
  rw [h.prepareTable_eq_forM htable]
  refine (forM_eq_self_iff (fun s : Server => s.fates.length)
    (prepareProperty_stays_or_takes target name)).2 fun property hmem => ?_
  exact (h.prepareProperty_eq_self_iff hrefl htable hmem).2 (hkeeps property hmem)

/-- The table is created when it is not there. -/
theorem Declares.prepareTable_eq_perform
    (h : target.Declares stream name schema properties a definition) (htable : s.tables a = none) :
    target.prepareTable name schema (target.primaryKeys stream) s = Server.perform target.conn name
      (.createEmptyTable schema (some (target.primaryKeys stream)) false) s := by
  have hfound : target.tableOf name s = .ok none := by
    rw [tableOf, h.inspected, ← htable]
    rfl
  exact (bind_of_ok (observe_eq_ok.2 ⟨hfound, rfl⟩)).trans rfl

/-- A setup in its two parts: the names of the stream are known. -/
theorem Declares.setup_eq (h : target.Declares stream name schema properties a definition) :
    target.setup stream = (target.prepareSchemaOf stream >>= fun _ =>
      target.prepareTable name schema (target.primaryKeys stream)) := by
  unfold setup
  rw [h.name_eq, h.conformed]
  rfl

/-- However a setup ends, the table of the stream is as it was, or has been created. -/
theorem Declares.tables_setup (h : target.Declares stream name schema properties a definition)
    (hrefl : ∀ type, target.conn.adapt type type = .ok none)
    (hkeeps : target.KeepsKeys stream properties)
    (hs : s.tables a = none ∨ s.tables a = some definition) :
    (target.setup stream s).2.tables = s.tables ∨
      (target.setup stream s).2.tables = Function.update s.tables a (some definition) := by
  have hschema := tables_prepareSchemaOf target stream s
  rw [h.setup_eq]
  refine bind_induction (P := fun t : Server => t.tables = s.tables ∨
    t.tables = Function.update s.tables a (some definition)) (Or.inl hschema) fun _ t ht => ?_
  rw [ht] at hschema
  dsimp only at hschema
  rw [← hschema] at hs ⊢
  rcases hs with hnone | hsome
  · rw [h.prepareTable_eq_perform hnone]
    exact Server.tables_createEmptyTable h.created t
  · rw [h.prepareTable_eq_self hrefl hkeeps hsome]
    exact Or.inl rfl

/-- In runs of setups that may be interrupted anywhere, the table is created at most once. -/
theorem Declares.tables_of_run (h : target.Declares stream name schema properties a definition)
    (hrefl : ∀ type, target.conn.adapt type type = .ok none)
    (hkeeps : target.KeepsKeys stream properties) (hs : s.tables a = none) {calls : List Call}
    (hcalls : ∀ c ∈ calls, c = .createEngine ∨ c = .setup stream)
    (hrun : Runs.run target.step s calls = some t) :
    t.tables = s.tables ∨ t.tables = Function.update s.tables a (some definition) := by
  refine Runs.invariant_of_run (P := fun t : Server => t.tables = s.tables ∨
    t.tables = Function.update s.tables a (some definition)) ?_ (Or.inl rfl)
    (Runs.AllSteps.of_forall hcalls) hrun
  intro u c v hu hc hstep
  obtain rfl := Option.some.inj hstep
  rcases hc with rfl | rfl
  · have htables : (target.call .createEngine u).2.tables = u.tables :=
      tables_ensureDatabaseExists target _ u
    rwa [htables]
  · rcases hu with hu | hu
    · rw [← hu] at hs ⊢
      exact h.tables_setup hrefl hkeeps (Or.inl hs)
    · have hsome : u.tables a = some definition := by rw [hu, Function.update_self]
      have hsetup := h.tables_setup hrefl hkeeps (Or.inr hsome)
      rw [hu, Function.update_idem, or_self] at hsetup
      exact Or.inr hsetup

/-- When its statements are answered, a process comes to the table of the stream: the tables are as
they were, and the database is there. -/
theorem Declares.start_eq (h : target.Declares stream name schema properties a definition)
    (hcreates : a.database = "default" ∨ target.Creates stream a.database)
    (haccepts : ∀ d, d = target.conn.config.database ∨ stream.schemaName = some d →
      (target.createdDatabase (createDatabaseSql d)).isSome = true)
    (hdefault : "default" ∈ s.databases) {fates : List Fate}
    (hfates : s.fates = .answered :: .answered :: .answered :: fates) :
    ∃ v rest, v.fates = .answered :: rest ∧ v.tables = s.tables ∧ a.database ∈ v.databases ∧
      target.start stream s = target.prepareTable name schema (target.primaryKeys stream) v := by
  obtain ⟨u, hengine, hu, -⟩ := ensureDatabaseExists_answered (some target.conn.config.database)
    (fun d hd => haccepts d (Or.inl (Option.some.inj hd).symm)) hfates
  obtain ⟨rest, hufates⟩ : ∃ rest, u.fates = .answered :: .answered :: rest := by
    rcases hu with hu | hu
    · exact ⟨_, hu.trans hfates⟩
    · exact ⟨_, hu⟩
  obtain ⟨v, hschema, hv, -⟩ := ensureDatabaseExists_answered stream.schemaName
    (fun d hd => haccepts d (Or.inr hd)) hufates
  obtain ⟨rest', hvfates⟩ : ∃ rest, v.fates = .answered :: rest := by
    rcases hv with hv | hv
    · exact ⟨_, hv.trans hufates⟩
    · exact ⟨_, hv⟩
  have hengine' : target.createEngine s = (.ok (), u) := hengine
  have hschema' : target.prepareSchemaOf stream u = (.ok (), v) :=
    (congrFun (prepareSchemaOf_eq target stream) u).trans hschema
  refine ⟨v, rest', hvfates, ?_,
    mem_databases_of_creates hcreates hdefault hengine' (refl_of _ u) hschema', ?_⟩
  · have hutables := tables_ensureDatabaseExists target (some target.conn.config.database) s
    have hvtables := tables_ensureDatabaseExists target stream.schemaName u
    rw [hengine] at hutables
    rw [hschema] at hvtables
    exact hvtables.trans hutables
  · unfold start
    rw [bind_of_ok hengine', h.setup_eq, bind_of_ok hschema']

/-- The table is created as it was declared. -/
theorem Declares.prepareTable_creates
    (h : target.Declares stream name schema properties a definition) (htable : s.tables a = none)
    (hdatabase : a.database ∈ s.databases) {fates : List Fate}
    (hfates : s.fates = .answered :: fates) :
    (target.prepareTable name schema (target.primaryKeys stream) s).1 = .ok () ∧
      (target.prepareTable name schema (target.primaryKeys stream) s).2.tables =
        Function.update s.tables a (some definition) := by
  have hreturns := (Server.createEmptyTable_answered h.created hfates).2 hdatabase
  rw [h.prepareTable_eq_perform htable]
  refine ⟨hreturns, ?_⟩
  obtain ⟨b, definition', -, hddl, hcases⟩ :=
    Server.createEmptyTable_returns (Prod.ext hreturns rfl)
  obtain ⟨rfl, rfl, -⟩ := Ddl.createTable.inj (Except.ok.inj (hddl.symm.trans h.created))
  rcases hcases with ⟨hsome, -⟩ | ⟨-, hcreated⟩
  · rw [htable] at hsome
    cases hsome
  · exact hcreated

end Declares

end Target

end TargetClickhouse
