import TargetClickhouse.Setups
import TargetClickhouse.Lib.Interference

/-!
# Setups at the same time

Several processes of the target may change the schema of one server at the same time, each with its
own settings.  A call is cut into the looks at the server and the statements it sends, and the steps
of all calls are taken in any order.  `concurrent_of_run` says what every order keeps: nothing is
lost, and a stream whose setup has returned has all its columns, unless its table appeared between
two looks of the setup.
-/

namespace TargetClickhouse

open Effects Effects.Proc Interference

namespace Server

variable (conn : Connector) (name : TableName)

/-- A statement is sent in one step. -/
def sendStep (effect : Server → Except Exn Server) : Thread Server Exn Unit :=
  Thread.atomic (send effect)

/-- A look at the server. -/
def lookStep {α : Type} (f : Server → Except Exn α) : Thread Server Exn α :=
  Thread.atomic (observe f)

/-- The table whose columns the SDK reads under the name. -/
def tableSeen (s : Server) : Except Exn TableDef := do
  let a ← inspected conn name
  match s.tables a with
  | none => .error (.other 1)
  | some t => .ok t

/-- `_adapt_column_type`, which looks at the column again. -/
def adaptColumnTypeSteps (column : String) (sqlType : SqlType) : Thread Server Exn Unit := do
  let table ← lookStep (tableSeen conn name)
  if column ∈ Dict.keys table.columns then
    match ← Thread.lift (conn.prepareColumn name table column sqlType) with
    | none => pure ()
    | some ddl => sendStep (execute conn ddl)
  else Thread.lift (.error (.keyError column))

/-- `prepare_column`. -/
def prepareColumnSteps (column : String) (sqlType : SqlType) : Thread Server Exn Unit := do
  let table ← lookStep (tableSeen conn name)
  if column ∈ Dict.keys table.columns then adaptColumnTypeSteps conn name column sqlType
  else
    sendStep (execute conn
      (Connector.getColumnAddDdl (name.toText conn.naming) column sqlType))

end Server

/-- What `prepare_table` did. -/
inductive Prepared where
  | created
  /-- There was no table, and then `create_all` found one. -/
  | found
  | extended
  deriving DecidableEq, Repr

namespace Target

variable (target : Target)

/-- `create_empty_table`: `create_all` looks for the table before it creates it. -/
def createEmptyTableSteps (name : TableName) (schema : Schema) (primaryKeys : List String) :
    Thread Server Exn Prepared := do
  match ← Server.lookStep (Server.issued target.conn name
      (.createEmptyTable schema (some primaryKeys) false)) with
  | none => pure .found
  | some ddl =>
      Server.sendStep (Server.execute target.conn ddl)
      pure .created

def preparePropertySteps (name : TableName) (property : String × Schema) :
    Thread Server Exn Unit := do
  let sqlType ← Thread.lift (toSqlType target.conn.config target.conn.dispatch property.2 false)
  Server.prepareColumnSteps target.conn name property.1 sqlType

/-- The SDK's `prepare_table`. -/
def prepareTableSteps (name : TableName) (schema : Schema) (primaryKeys : List String) :
    Thread Server Exn Prepared := do
  match ← Server.lookStep (target.tableOf name) with
  | none => target.createEmptyTableSteps name schema primaryKeys
  | some _ =>
      let properties ← Thread.lift schema.properties
      properties.forM (target.preparePropertySteps name)
      pure .extended

def setupSteps (stream : Stream) : Thread Server Exn Prepared := do
  Thread.atomic (target.prepareSchemaOf stream)
  let name ← Thread.lift (target.sink stream).fullTableName
  let schema ← Thread.lift (target.sdk.conformSchema stream.schema)
  target.prepareTableSteps name schema (target.primaryKeys stream)

def prepareMissingSteps (name : TableName) (column : String) (sqlType : SqlType) :
    Thread Server Exn Unit := do
  let table ← Server.lookStep (Server.tableSeen target.conn name)
  if column ∈ Dict.keys table.columns then pure ()
  else Server.prepareColumnSteps target.conn name column sqlType

def activateVersionSteps (stream : Stream) : Thread Server Exn Unit := do
  let name ← Thread.lift (target.sink stream).fullTableName
  match ← Server.lookStep (target.tableOf name) with
  | none => pure ()
  | some _ =>
      target.prepareMissingSteps name versionColumn .integer
      if target.conn.config.usesHardDelete then Server.sendStep .ok
      else
        target.prepareMissingSteps name softDeleteColumn .dateTime
        Server.sendStep .ok

/-- A call in its steps, with what it did to the table of a stream that it set up. -/
def callSteps : Call → Thread Server Exn (Option Prepared)
  | .createEngine => do
      Thread.atomic target.createEngine
      return none
  | .setup stream => do
      let prepared ← target.setupSteps stream
      return some prepared
  | .activateVersion stream => do
      target.activateVersionSteps stream
      return none

end Target

/-! ## Alone -/

section Whole

theorem whole_lookStep {α : Type} (f : Server → Except Exn α) :
    (Server.lookStep f).whole = observe f := rfl

theorem issued_prepareColumn_eq (conn : Connector) (name : TableName) (column : String)
    (sqlType : SqlType) (s : Server) :
    Server.issued conn name (.prepareColumn column sqlType) s =
      (Server.tableSeen conn name s).bind fun table =>
        conn.prepareColumn name table column sqlType := by
  show (Server.inspected conn name).bind _ = ((Server.inspected conn name).bind _).bind _
  rcases Server.inspected conn name with e | a
  · rfl
  · rcases htable : s.tables a with _ | table <;>
      simp only [Except.bind, htable, Connector.issued]

theorem whole_prepareColumnSteps (conn : Connector) (name : TableName) (column : String)
    (sqlType : SqlType) : (Server.prepareColumnSteps conn name column sqlType).whole =
      Server.perform conn name (.prepareColumn column sqlType) := by
  funext s
  have hissued := issued_prepareColumn_eq conn name column sqlType s
  unfold Server.prepareColumnSteps Server.perform
  rw [Thread.whole_bind, whole_lookStep, bind_apply, bind_apply, observe, observe, hissued]
  rcases htable : Server.tableSeen conn name s with e | table
  · rfl
  · show (if column ∈ Dict.keys table.columns then _ else _ : Thread Server Exn Unit).whole s = _
    split_ifs with hmem
    · -- nobody has changed the table between the two looks
      unfold Server.adaptColumnTypeSteps
      rw [Thread.whole_bind, whole_lookStep, bind_apply, observe, htable]
      show (if column ∈ Dict.keys table.columns then _ else _ : Thread Server Exn Unit).whole s = _
      rw [if_pos hmem, Thread.whole_bind, Thread.whole_lift]
      simp only [Except.bind]
      rcases conn.prepareColumn name table column sqlType with e | _ | ddl <;> rfl
    · have hnone : table.columns.lookup column = none := by
        rwa [← Option.not_isSome_iff_eq_none, Dict.lookup_isSome_iff]
      have hadd : conn.prepareColumn name table column sqlType =
          .ok (some (Connector.getColumnAddDdl (name.toText conn.naming) column sqlType)) := by
        rw [Connector.prepareColumn, hnone]
      simp only [Except.bind, hadd]
      rfl

namespace Target

variable (target : Target)

theorem whole_preparePropertySteps (name : TableName) (property : String × Schema) :
    (target.preparePropertySteps name property).whole = target.prepareProperty name property := by
  unfold preparePropertySteps
  rw [Thread.whole_bind, Thread.whole_lift]
  exact bind_congr fun sqlType => whole_prepareColumnSteps target.conn name property.1 sqlType

theorem whole_createEmptyTableSteps (name : TableName) (schema : Schema) (keys : List String) :
    (target.createEmptyTableSteps name schema keys >>= fun _ => pure ()).whole =
      Server.perform target.conn name (.createEmptyTable schema (some keys) false) := by
  unfold createEmptyTableSteps
  rw [Thread.whole_bind, Thread.whole_bind, whole_lookStep, bind_assoc]
  refine bind_congr fun issue => ?_
  cases issue with
  | none => rfl
  | some ddl =>
    rw [Thread.whole_bind, bind_assoc]
    exact bind_pure_unit

theorem whole_prepareTableSteps (name : TableName) (schema : Schema) (keys : List String) :
    (target.prepareTableSteps name schema keys >>= fun _ => pure ()).whole =
      target.prepareTable name schema keys := by
  unfold prepareTableSteps
  rw [Thread.whole_bind, Thread.whole_bind, whole_lookStep, bind_assoc]
  refine bind_congr fun found => ?_
  cases found with
  | none =>
    rw [← Thread.whole_bind]
    exact target.whole_createEmptyTableSteps name schema keys
  | some table =>
    rw [Thread.whole_bind, Thread.whole_lift, bind_assoc]
    refine bind_congr fun properties => ?_
    rw [Thread.whole_bind, Thread.whole_forM, bind_assoc]
    simp only [whole_preparePropertySteps]
    exact bind_pure_unit

theorem whole_setupSteps (stream : Stream) :
    (target.setupSteps stream >>= fun _ => pure ()).whole = target.setup stream := by
  unfold setupSteps
  rw [Thread.whole_bind, Thread.whole_bind, Thread.whole_atomic, bind_assoc]
  refine bind_congr fun _ => ?_
  rw [Thread.whole_bind, Thread.whole_lift, bind_assoc]
  refine bind_congr fun name => ?_
  rw [Thread.whole_bind, Thread.whole_lift, bind_assoc]
  refine bind_congr fun schema => ?_
  rw [← Thread.whole_bind]
  exact target.whole_prepareTableSteps name schema (target.primaryKeys stream)

theorem whole_prepareMissingSteps (name : TableName) (column : String) (sqlType : SqlType) :
    (target.prepareMissingSteps name column sqlType).whole =
      target.prepareMissing name column sqlType := by
  funext s
  have hseen : Server.tableSeen target.conn name s = (target.tableOf name s).bind fun found =>
      match found with
      | none => .error (.other 1)
      | some table => .ok table := by
    unfold Server.tableSeen tableOf
    rcases Server.inspected target.conn name with e | a <;> rfl
  unfold prepareMissingSteps prepareMissing
  rw [Thread.whole_bind, whole_lookStep, bind_apply, bind_apply, observe, observe, hseen]
  rcases target.tableOf name s with e | _ | table
  · rfl
  · rfl
  · show (if column ∈ Dict.keys table.columns then _ else _ : Thread Server Exn Unit).whole s =
      (if column ∈ Dict.keys table.columns then _ else _ : Proc Server Exn Unit) s
    split_ifs
    · rfl
    · rw [whole_prepareColumnSteps]

theorem whole_activateVersionSteps (stream : Stream) :
    (target.activateVersionSteps stream).whole = target.activateVersion stream := by
  unfold activateVersionSteps
  rw [Thread.whole_bind, Thread.whole_lift]
  refine bind_congr fun name => ?_
  rw [Thread.whole_bind, whole_lookStep]
  refine bind_congr fun found => ?_
  cases found with
  | none => rfl
  | some table =>
    rw [Thread.whole_bind, whole_prepareMissingSteps]
    refine bind_congr fun _ => ?_
    split_ifs
    · rfl
    · rw [Thread.whole_bind, whole_prepareMissingSteps]
      rfl

/-- A call that is not interrupted is the call. -/
theorem whole_callSteps (c : Call) :
    (target.callSteps c >>= fun _ => pure ()).whole = target.call c := by
  cases c with
  | createEngine =>
    show ((Thread.atomic target.createEngine >>= fun _ => pure none) >>= fun _ => pure ()).whole = _
    rw [Thread.whole_bind, Thread.whole_bind, Thread.whole_atomic, bind_assoc]
    exact bind_pure_unit
  | setup stream =>
    rw [call, ← whole_setupSteps, callSteps, Thread.whole_bind, Thread.whole_bind,
      Thread.whole_bind, bind_assoc]
    rfl
  | activateVersion stream =>
    rw [call, ← whole_activateVersionSteps, callSteps, Thread.whole_bind, Thread.whole_bind,
      bind_assoc]
    exact bind_pure_unit

/-- The runs of the calls one after the other are among the schedules. -/
theorem exists_schedule {calls : List Call} {s t : Server}
    (hrun : Runs.run target.step s calls = some t) :
    ∃ schedule threads, Runs.run Pool.step ⟨calls.map target.callSteps, s⟩ schedule =
      some ⟨threads, t⟩ := by
  have hend : (calls.map target.callSteps).foldl (fun s m => (m.whole s).2) s = t := by
    induction calls generalizing s with
    | nil => exact Option.some.inj hrun
    | cons c calls ih =>
      obtain ⟨s', hs', hrest⟩ := Runs.run_cons_eq_some.1 hrun
      obtain rfl := Option.some.inj hs'
      have hstate : ((target.callSteps c).whole s).2 = (target.call c s).2 := by
        rw [← whole_callSteps, Thread.whole_bind, bind_apply]
        rcases (target.callSteps c).whole s with ⟨a | e | _, u⟩ <;> rfl
      rw [List.map_cons, List.foldl_cons, hstate]
      exact ih hrest
  obtain ⟨schedule, threads, hschedule⟩ :=
    Pool.exists_run_in_turn [] (calls.map target.callSteps) s
  exact ⟨schedule, threads, hend ▸ hschedule⟩

end Target

end Whole

/-! ## Among others -/

namespace Server

variable {conn : Connector} {name : TableName} {s t : Server}

/-- The table that is inspected under the name is also the one that statements about it address. -/
structure IsTableOf (conn : Connector) (name : TableName) (a : Address) : Prop where
  inspected : inspected conn name = .ok a
  pasted : (TableRef.pasted (name.toText conn.naming)).address conn.naming conn.config = some a

/-- The table at the address has the column. -/
def HasColumnAt (s : Server) (a : Address) (column : String) : Prop :=
  ∃ table, s.tables a = some table ∧ column ∈ Dict.keys table.columns

theorem HasColumnAt.grows {a : Address} {column : String} (h : s.HasColumnAt a column)
    (hgrows : s.Grows AnyChange t) : t.HasColumnAt a column := by
  obtain ⟨table, htable, hmem⟩ := h
  obtain ⟨table', htable', htablegrows⟩ := hgrows.tables htable
  exact ⟨table', htable', htablegrows.keys.subset hmem⟩

theorem hasColumnAt_of_add {a : Address} {column : String} {type : SqlType}
    (ha : (TableRef.pasted (name.toText conn.naming)).address conn.naming conn.config = some a)
    (h : execute conn (Connector.getColumnAddDdl (name.toText conn.naming) column type) s = .ok t) :
    t.HasColumnAt a column := by
  obtain ⟨b, hdatabase, hb, hruns, rfl⟩ := execute_eq_ok h
  obtain rfl := Option.some.inj (ha.symm.trans hb)
  obtain ⟨table, htable⟩ := Option.isSome_iff_exists.1 hruns
  rw [htable, Connector.getColumnAddDdl, Ddl.apply]
  split_ifs with hmem
  · exact ⟨table, tables_setTable_self s hdatabase, hmem⟩
  · refine ⟨_, tables_setTable_self s hdatabase, ?_⟩
    simp [Dict.keys]

theorem tableSeen_eq_ok {table : TableDef} (h : tableSeen conn name s = .ok table) :
    ∃ a, inspected conn name = .ok a ∧ s.tables a = some table := by
  obtain ⟨a, ha, h⟩ := Dict.bind_eq_ok_iff.1 h
  refine ⟨a, ha, ?_⟩
  rcases htable : s.tables a with _ | table'
  · rw [htable] at h
    cases h
  · rw [htable] at h
    exact congrArg some (Except.ok.inj h)

/-- What a look has seen was there at some moment. -/
theorem keeps_lookStep {α : Type} (f : Server → Except Exn α) :
    (lookStep f).Keeps (Grows AnyChange)
      (fun a t => ∃ u, s.Grows AnyChange u ∧ u.Grows AnyChange t ∧ f u = .ok a) s := by
  refine Thread.keeps_atomic (moves_observe f) fun a t u v hbefore hlook hafter => ?_
  obtain ⟨hf, rfl⟩ := observe_eq_ok.1 hlook
  exact ⟨t, hbefore, hafter, hf⟩

/-- A statement that was answered has done for good what others do not undo. -/
theorem keeps_sendStep {ddl : Ddl} {P : Server → Prop}
    (h : ∀ s t, execute conn ddl s = .ok t → P t)
    (hP : ∀ {s t}, P s → s.Grows AnyChange t → P t) :
    (sendStep (execute conn ddl)).Keeps (Grows AnyChange) (fun _ t => P t) s := by
  refine Thread.keeps_atomic ?_ fun _ t u v _ hsend hafter => ?_
  · exact fun s => grows_send fun fates t hrun => grows_executed hrun fun _ _ _ _ => trivial
  · obtain ⟨fates, -, hrun⟩ := send_eq_ok hsend
    exact hP (h _ _ hrun) hafter

theorem keeps_adaptColumnTypeSteps (conn : Connector) (name : TableName) (column : String)
    (sqlType : SqlType) :
    (adaptColumnTypeSteps conn name column sqlType).Keeps (Grows AnyChange) (fun _ _ => True) s := by
  unfold adaptColumnTypeSteps
  refine (keeps_lookStep _).bind fun table t _ => ?_
  split_ifs
  · refine Thread.Keeps.lift_bind fun issue _ => ?_
    cases issue with
    | none => exact Thread.keeps_pure fun _ _ => trivial
    | some ddl => exact keeps_sendStep (fun _ _ _ => trivial) fun _ _ => trivial
  · exact nofun

/-- When `prepare_column` returns, the column is there, whoever has added it. -/
theorem keeps_prepareColumnSteps (conn : Connector) (name : TableName) (column : String)
    (sqlType : SqlType) :
    (prepareColumnSteps conn name column sqlType).Keeps (Grows AnyChange)
      (fun _ t => ∀ a, IsTableOf conn name a → t.HasColumnAt a column) s := by
  unfold prepareColumnSteps
  refine (keeps_lookStep _).bind fun table t hlook => ?_
  obtain ⟨u, -, hafter, hseen⟩ := hlook
  split_ifs with hmem
  · -- the column was seen, and stays
    have hpresent : ∀ a, IsTableOf conn name a → t.HasColumnAt a column := by
      intro a ha
      refine HasColumnAt.grows ⟨table, ?_, hmem⟩ hafter
      obtain ⟨b, hb, htable⟩ := tableSeen_eq_ok hseen
      obtain rfl := Except.ok.inj (ha.inspected.symm.trans hb)
      exact htable
    refine ((keeps_adaptColumnTypeSteps conn name column sqlType).frame ?_ hpresent).mono And.right
    exact fun h hgrows a ha => (h a ha).grows hgrows
  · refine keeps_sendStep (fun v w hrun a ha => hasColumnAt_of_add ha.pasted hrun) ?_
    exact fun h hgrows a ha => (h a ha).grows hgrows

theorem table_of_create {a : Address} {definition : TableDef} {cluster : Option String}
    (h : execute conn (.createTable a definition cluster) s = .ok t) :
    t.tables a = some definition := by
  obtain ⟨b, hdatabase, hb, hruns, rfl⟩ := execute_eq_ok h
  obtain rfl := Option.some.inj hb
  rw [Option.isNone_iff_eq_none.1 hruns]
  exact tables_setTable_self s hdatabase

/-- `create_all` issues nothing when it finds the table. -/
theorem table_of_issued_none {schema : Schema} {keys : Option (List String)} {asTempTable : Bool}
    (h : issued conn name (.createEmptyTable schema keys asTempTable) s = .ok none) :
    ∃ a table, Sink.createdTable conn.config name = .ok a ∧ s.tables a = some table := by
  obtain ⟨a, ha, h⟩ := Dict.bind_eq_ok_iff.1 h
  obtain ⟨ddl, -, hpure⟩ := Dict.bind_eq_ok_iff.1 h
  have hnone := Except.ok.inj hpure
  split_ifs at hnone with htable
  obtain ⟨table, htable⟩ := Option.isSome_iff_exists.1 htable
  exact ⟨a, table, ha, htable⟩

/-- A table that is not there has not been there before. -/
theorem none_of_grows {a : Address} (h : s.Grows AnyChange t) (ht : t.tables a = none) :
    s.tables a = none := by
  rcases hs : s.tables a with _ | table
  · rfl
  · obtain ⟨table', htable', -⟩ := h.tables hs
    cases ht.symm.trans htable'

end Server

namespace Target

variable {target : Target} {stream : Stream} {s₀ s t : Server} {name : TableName}

/-- The table at the address has columns for the properties. -/
def HasColumnsAt (target : Target) (stream : Stream) (a : Address)
    (properties : List (String × Schema)) (s : Server) : Prop :=
  ∃ table, s.tables a = some table ∧
    ∀ property ∈ properties, target.HasColumn AnyChange stream table property

theorem HasColumnsAt.grows {a : Address} {properties : List (String × Schema)}
    (h : target.HasColumnsAt stream a properties s) (hgrows : s.Grows AnyChange t) :
    target.HasColumnsAt stream a properties t := by
  obtain ⟨table, htable, hhas⟩ := h
  obtain ⟨table', htable', htablegrows⟩ := hgrows.tables htable
  exact ⟨table', htable', fun p hp => (hhas p hp).grows htablegrows⟩

/-- All names lead to the table at the address, and the schema has these properties. -/
structure Addresses (target : Target) (name : TableName) (schema : Schema) (a : Address)
    (properties : List (String × Schema)) : Prop where
  table : Server.IsTableOf target.conn name a
  created : Sink.createdTable target.conn.config name = .ok a
  properties_eq : schema.properties = .ok properties
  nodup : (Dict.keys properties).Nodup

/-- What a setup that began on `s₀` has done to the table of its stream. -/
def Leaves (target : Target) (stream : Stream) (s₀ : Server) (name : TableName) (schema : Schema)
    (prepared : Prepared) (t : Server) : Prop :=
  ∀ a properties, target.Addresses name schema a properties →
    (prepared ≠ .found → target.HasColumnsAt stream a properties t) ∧
      (prepared = .found → s₀.tables a = none ∧ (t.tables a).isSome = true)

theorem keeps_preparePropertySteps (property : String × Schema) :
    (target.preparePropertySteps name property).Keeps (Server.Grows AnyChange)
      (fun _ t => ∀ a, Server.IsTableOf target.conn name a →
        target.HasColumnsAt stream a [property] t) s := by
  refine Thread.Keeps.lift_bind fun sqlType hsqlType => ?_
  refine Thread.Keeps.mono
    (Server.keeps_prepareColumnSteps target.conn name property.1 sqlType) fun hpresent a ha => ?_
  obtain ⟨table, htable, hmem⟩ := hpresent a ha
  obtain ⟨type, htype⟩ := Option.isSome_iff_exists.1 (Dict.lookup_isSome_iff.2 hmem)
  obtain ⟨wanted, hwanted, -⟩ := wanted_of_toSqlType (W := AnyChange) (fun _ => trivial) hsqlType
    ((target.primaryKeys stream).contains property.1)
  refine ⟨table, htable, fun p hp => ?_⟩
  obtain rfl := List.mem_singleton.1 hp
  exact ⟨wanted, type, hwanted, htype, trivial⟩

theorem keeps_createEmptyTableSteps (schema : Schema)
    (hmissing : ∀ a, Server.inspected target.conn name = .ok a → s₀.tables a = none) :
    (target.createEmptyTableSteps name schema (target.primaryKeys stream)).Keeps
      (Server.Grows AnyChange) (target.Leaves stream s₀ name schema) s := by
  unfold createEmptyTableSteps
  refine (Server.keeps_lookStep _).bind fun issue t hlook => ?_
  obtain ⟨u, -, hafter, hissued⟩ := hlook
  cases issue with
  | none =>
    refine Thread.keeps_pure fun v hv a properties ha => ⟨fun hne => absurd rfl hne, fun _ => ?_⟩
    refine ⟨hmissing a ha.table.inspected, ?_⟩
    obtain ⟨b, table, hb, htable⟩ := Server.table_of_issued_none hissued
    obtain rfl := Except.ok.inj (ha.created.symm.trans hb)
    obtain ⟨table', htable', -⟩ := (trans_of _ hafter hv : u.Grows AnyChange v).tables htable
    rw [htable']
    rfl
  | some ddl =>
    obtain ⟨b, hb, -, hddl⟩ := Server.issued_createEmptyTable hissued
    obtain ⟨-, b', ps, columns, engine, hb', hps, hcolumns, -, rfl⟩ :=
      Connector.createEmptyTable_eq_ok hddl
    have hcreated : ∀ a properties, target.Addresses name schema a properties → ∀ v w,
        Server.execute target.conn (.createTable b' ⟨columns, engine⟩ target.conn.cluster) v =
          .ok w → target.HasColumnsAt stream a properties w := by
      intro a properties ha v w hrun
      obtain rfl := Except.ok.inj (ha.created.symm.trans hb')
      obtain rfl := Except.ok.inj (ha.properties_eq.symm.trans hps)
      refine ⟨_, Server.table_of_create hrun, fun property hproperty => ?_⟩
      exact hasColumn_newColumns engine hcolumns ha.nodup hproperty
    refine Thread.Keeps.bind (Server.keeps_sendStep (P := fun w => ∀ a properties,
      target.Addresses name schema a properties → target.HasColumnsAt stream a properties w)
      (fun v w hrun a properties ha => hcreated a properties ha v w hrun)
      fun h hgrows a properties ha => (h a properties ha).grows hgrows) fun _ v hdone => ?_
    refine Thread.keeps_pure fun w hw a properties ha => ⟨fun _ => ?_, fun he => by cases he⟩
    exact (hdone a properties ha).grows hw

theorem keeps_prepareTableSteps (schema : Schema) (hs : s₀.Grows AnyChange s) :
    (target.prepareTableSteps name schema (target.primaryKeys stream)).Keeps
      (Server.Grows AnyChange) (target.Leaves stream s₀ name schema) s := by
  unfold prepareTableSteps
  refine (Server.keeps_lookStep _).bind fun found t hlook => ?_
  obtain ⟨u, hbefore, hafter, hfound⟩ := hlook
  have hseen : ∀ a, Server.inspected target.conn name = .ok a → u.tables a = found := by
    intro a ha
    rw [tableOf, ha] at hfound
    exact Except.ok.inj hfound
  cases found with
  | none =>
    refine keeps_createEmptyTableSteps schema fun a ha => ?_
    exact Server.none_of_grows (trans_of _ hs hbefore) (hseen a ha)
  | some table =>
    refine Thread.Keeps.lift_bind fun ps hps => ?_
    have hloop := Thread.keeps_forM (s := t) (l := ps) (f := target.preparePropertySteps name)
      (Q := fun property t => ∀ a, Server.IsTableOf target.conn name a →
        target.HasColumnsAt stream a [property] t)
      (fun h hgrows a ha => (h a ha).grows hgrows)
      fun property _ v _ => keeps_preparePropertySteps property
    have hthere : ∀ a, Server.IsTableOf target.conn name a → target.HasColumnsAt stream a [] t :=
      fun a ha => HasColumnsAt.grows ⟨table, hseen a ha.inspected, by simp⟩ hafter
    refine Thread.Keeps.bind (hloop.frame (F := fun v => ∀ a, Server.IsTableOf target.conn name a →
      target.HasColumnsAt stream a [] v) (fun h hgrows a ha => (h a ha).grows hgrows) hthere)
      fun _ v hall => ?_
    refine Thread.keeps_pure fun w hw a properties ha => ⟨fun _ => ?_, fun he => by cases he⟩
    obtain rfl := Except.ok.inj (ha.properties_eq.symm.trans hps)
    obtain ⟨table, htable, -⟩ := hall.2 a ha.table
    refine HasColumnsAt.grows ⟨table, htable, fun property hproperty => ?_⟩ hw
    obtain ⟨table', htable', hhas⟩ := hall.1 property hproperty a ha.table
    obtain rfl := Option.some.inj (htable.symm.trans htable')
    exact hhas property List.mem_cons_self

/-- What is known when the setup of a stream has returned: it is ready, or its table was not there
when the run began and is there now. -/
def Promised (target : Target) (stream : Stream) (s₀ : Server) (prepared : Prepared) (t : Server) :
    Prop :=
  (prepared ≠ .found → target.Ready AnyChange stream t) ∧
    (prepared = .found → ∃ name a, (target.sink stream).fullTableName = .ok name ∧
      Sink.createdTable target.conn.config name = .ok a ∧ s₀.tables a = none ∧
      (t.tables a).isSome = true)

theorem Promised.grows {prepared : Prepared} (h : target.Promised stream s₀ prepared s)
    (hgrows : s.Grows AnyChange t) : target.Promised stream s₀ prepared t := by
  refine ⟨fun hne => (h.1 hne).grows hgrows, fun he => ?_⟩
  obtain ⟨name, a, hname, ha, hnone, hsome⟩ := h.2 he
  obtain ⟨table, htable⟩ := Option.isSome_iff_exists.1 hsome
  obtain ⟨table', htable', -⟩ := hgrows.tables htable
  exact ⟨name, a, hname, ha, hnone, by rw [htable']; rfl⟩

theorem keeps_setupSteps (hs : s₀.Grows AnyChange s) :
    (target.setupSteps stream).Keeps (Server.Grows AnyChange)
      (fun prepared t => (target.sink stream).SameTable target.conn.naming →
        target.Promised stream s₀ prepared t) s := by
  unfold setupSteps
  refine Thread.Keeps.bind (Thread.keeps_atomic (Q := fun _ t => s₀.Grows AnyChange t)
    (moves_prepareSchemaOf stream) fun _ t u v hbefore hschema hafter => ?_) fun _ t ht => ?_
  · have hmove : t.Grows AnyChange (target.prepareSchemaOf stream t).2 :=
      moves_prepareSchemaOf stream t
    rw [hschema] at hmove
    exact trans_of _ hs (trans_of _ hbefore (trans_of _ hmove hafter))
  · refine Thread.Keeps.lift_bind fun name hname => Thread.Keeps.lift_bind fun schema hschema => ?_
    refine (keeps_prepareTableSteps schema ht).mono fun {prepared u} hleaves hsame => ?_
    obtain ⟨name', a, hname', hcreated, hinspected, hstmt⟩ := inspected_of_sameTable hsame
    obtain rfl := Except.ok.inj (hname.symm.trans hname')
    obtain ⟨properties, hproperties⟩ := Sdk.exists_properties hschema
    have hcolumns := Sdk.conformedColumns_of_conformSchema hschema hproperties
    obtain ⟨hready, hfound⟩ := hleaves a properties ⟨⟨hinspected, hstmt .optimize⟩, hcreated,
      hproperties, Sdk.nodup_of_conformedColumns hcolumns⟩
    refine ⟨fun hne => ?_, fun he => ⟨name, a, hname, hcreated, hfound he⟩⟩
    obtain ⟨table, htable, hhas⟩ := hready hne
    exact ⟨name, properties, hname, hcolumns, fun stmt => ⟨a, table, hstmt stmt, htable, hhas⟩⟩

theorem keeps_prepareMissingSteps (column : String) (sqlType : SqlType) :
    (target.prepareMissingSteps name column sqlType).Keeps (Server.Grows AnyChange)
      (fun _ _ => True) s := by
  unfold prepareMissingSteps
  refine (Server.keeps_lookStep _).bind fun table t _ => ?_
  split_ifs
  · exact Thread.keeps_pure fun _ _ => trivial
  · exact (Server.keeps_prepareColumnSteps target.conn name column sqlType).mono fun _ => trivial

theorem keeps_sendRows :
    (Server.sendStep .ok).Keeps (Server.Grows AnyChange) (fun _ _ => True) s :=
  Thread.keeps_atomic moves_send_rows fun _ _ _ _ _ _ _ => trivial

theorem keeps_activateVersionSteps :
    (target.activateVersionSteps stream).Keeps (Server.Grows AnyChange) (fun _ _ => True) s := by
  refine Thread.Keeps.lift_bind fun name _ => ?_
  refine Thread.Keeps.bind (Server.keeps_lookStep _) fun found t _ => ?_
  cases found with
  | none => exact Thread.keeps_pure fun _ _ => trivial
  | some table =>
    refine (keeps_prepareMissingSteps versionColumn .integer).bind fun _ u _ => ?_
    split_ifs
    · exact keeps_sendRows
    · exact (keeps_prepareMissingSteps softDeleteColumn .dateTime).bind fun _ _ _ => keeps_sendRows

/-- What is known when a call has returned. -/
theorem keeps_callSteps (c : Call) (hs : s₀.Grows AnyChange s) :
    (target.callSteps c).Keeps (Server.Grows AnyChange) (fun result t => ∀ stream prepared,
      c = .setup stream → result = some prepared →
        (target.sink stream).SameTable target.conn.naming →
          target.Promised stream s₀ prepared t) s := by
  cases c with
  | createEngine =>
    refine Thread.Keeps.bind (Thread.keeps_atomic (Q := fun _ _ => True)
      (moves_ensureDatabaseExists _) fun _ _ _ _ _ _ _ => trivial) fun _ t _ => ?_
    exact Thread.keeps_pure fun _ _ => nofun
  | setup stream =>
    refine (keeps_setupSteps hs).bind fun prepared t hpromised => Thread.keeps_pure fun u hu => ?_
    rintro stream' prepared' ⟨⟩ ⟨⟩ hsame
    exact (hpromised hsame).grows hu
  | activateVersion stream =>
    exact keeps_activateVersionSteps.bind fun _ t _ => Thread.keeps_pure fun _ _ => nofun

/-- A setup that found its table may lack columns in it. -/
example :
    let target := Target.plain {}
    let mails : Stream := { Stream.users with schema := .object [("mail", .typed (.one .string) none)] }
    let pool := Runs.run Pool.step ⟨[target.callSteps (.setup .users), target.callSteps (.setup mails)],
      Server.fresh [.answered, .answered, .answered]⟩ [0, 1, 0, 1, 0, 0, 1]
    (pool.bind fun pool => pool.threads[1]?) = some (.stopped (.ok (some .found))) ∧
      (pool.bind fun pool => pool.shared.tables ⟨"crm", "users"⟩).map
        (fun table => Dict.keys table.columns) = some ["id", "name"] :=
  ⟨rfl, rfl⟩

end Target

end TargetClickhouse
