import TargetClickhouse.Cluster
import TargetClickhouse.Records
import TargetClickhouse.Lib.Effects

/-!
# Schema changes on a server

A server with its databases and tables, and the operations of the connector as computations on it:
they read the tables that are there, send statements, and raise when a statement is refused or its
answer is lost.  `moves_perform` says what an operation can do to the server whatever its result, and
`createEmptyTable_returns` and `prepareColumn_returns` what its return guarantees.
-/

namespace TargetClickhouse

open Effects Effects.Proc

/-- What becomes of a statement that is sent. -/
inductive Fate where
  | answered
  /-- The server runs the statement, and its answer is lost. -/
  | unheard
  /-- The server does not run the statement. -/
  | refused
  deriving DecidableEq, Repr

/-- The server runs the statement on a table like this one. -/
def Ddl.runsOn : Ddl → Option TableDef → Bool
  | createTable .., table => table.isNone
  | addColumn .., table => table.isSome
  | modifyColumn _ column _ _, table => table.any fun t => column ∈ Dict.keys t.columns

/-- The databases and tables of a server, and the fates of the statements that are still to come.
A table lies in a database that exists. -/
structure Server where
  databases : List String
  tables : Address → Option TableDef
  fates : List Fate
  mem_databases : ∀ {a t}, tables a = some t → a.database ∈ databases

namespace Server

def withFates (s : Server) (fates : List Fate) : Server := { s with fates := fates }

def addDatabase (database : String) (s : Server) : Server where
  databases := s.databases.insert database
  tables := s.tables
  fates := s.fates
  mem_databases := fun h => List.mem_insert_of_mem (s.mem_databases h)

def setTable (s : Server) (a : Address) (table : Option TableDef) (h : a.database ∈ s.databases) :
    Server where
  databases := s.databases
  tables := Function.update s.tables a table
  fates := s.fates
  mem_databases := by
    intro b t hb
    by_cases hba : b = a
    · rwa [hba]
    · rw [Function.update_of_ne hba] at hb
      exact s.mem_databases hb

@[simp] theorem tables_setTable_self (s : Server) {a : Address} {table : Option TableDef}
    (h : a.database ∈ s.databases) : (s.setTable a table h).tables a = table :=
  Function.update_self ..

/-- A statement is sent; without an answer nothing after it happens. -/
def send (effect : Server → Except Exn Server) : Proc Server Exn Unit := fun s =>
  match s.fates with
  | [] => (.pending, s)
  | fate :: fates =>
      match effect (s.withFates fates) with
      | .error e => (.raised e, s.withFates fates)
      | .ok t =>
          match fate with
          | .answered => (.ok (), t)
          | .unheard => (.raised (.other 2), t)
          | .refused => (.raised (.other 2), s.withFates fates)

variable (conn : Connector)

/-- The table that the statement is about. -/
def addressOf : Ddl → Option Address
  | .createTable address _ _ => some address
  | .addColumn table _ _ _ => (TableRef.pasted table).address conn.naming conn.config
  | .modifyColumn table _ _ _ => (TableRef.pasted table).address conn.naming conn.config

/-- The effect of a schema change, or the server's report of an error. -/
def execute (ddl : Ddl) (s : Server) : Except Exn Server :=
  match addressOf conn ddl with
  | none => .error (.other 3)
  | some a =>
      if h : a.database ∈ s.databases then
        if ddl.runsOn (s.tables a) then .ok (s.setTable a (ddl.apply (s.tables a)) h)
        else .error (.other 4)
      else .error (.other 5)

/-- The table that the SDK inspects under the name: the parsed one. -/
def inspected (name : TableName) : Except Exn Address := do
  let (_, schemaName, table) ← parseFullTableName name
  return conn.config.address schemaName table

/-- The table whose definition decides what an operation issues. -/
def subject (name : TableName) : SchemaOp → Except Exn Address
  | .createEmptyTable .. => Sink.createdTable conn.config name
  | .prepareColumn .. => inspected conn name

/-- The statement that an operation issues here. -/
def issued (name : TableName) (op : SchemaOp) (s : Server) : Except Exn (Option Ddl) := do
  let a ← subject conn name op
  conn.issued name (s.tables a) op

/-- An operation of the connector: it issues at most one statement. -/
def perform (name : TableName) (op : SchemaOp) : Proc Server Exn Unit := do
  match ← observe (issued conn name op) with
  | none => pure ()
  | some ddl => send (execute conn ddl)

/-! ## What a server may turn into -/

end Server

/-- The definition has kept its engine and its columns in their order, and the types of the columns
have changed along `W`. -/
structure TableDef.Grows (W : SqlType → SqlType → Prop) (t t' : TableDef) : Prop where
  engine : t'.engine = t.engine
  keys : Dict.keys t.columns <+: Dict.keys t'.columns
  types : ∀ {column type}, t.columns.lookup column = some type →
    ∃ type', t'.columns.lookup column = some type' ∧ W type type'

/-- No database and no table is gone, and the tables have grown. -/
structure Server.Grows (W : SqlType → SqlType → Prop) (s s' : Server) : Prop where
  databases : ∀ database ∈ s.databases, database ∈ s'.databases
  tables : ∀ {a t}, s.tables a = some t → ∃ t', s'.tables a = some t' ∧ t.Grows W t'

section

variable {W : SqlType → SqlType → Prop} [IsPreorder SqlType W] {t t' : TableDef}

theorem TableDef.Grows.refl (t : TableDef) : t.Grows W t where
  engine := rfl
  keys := List.prefix_rfl
  types := fun h => ⟨_, h, refl_of W _⟩

theorem TableDef.Grows.trans {t'' : TableDef} (h : t.Grows W t') (h' : t'.Grows W t'') :
    t.Grows W t'' where
  engine := h'.engine.trans h.engine
  keys := h.keys.trans h'.keys
  types := by
    intro column type hlookup
    obtain ⟨type', hlookup', hW⟩ := h.types hlookup
    obtain ⟨type'', hlookup'', hW'⟩ := h'.types hlookup'
    exact ⟨type'', hlookup'', trans_of W hW hW'⟩

instance : IsPreorder Server (Server.Grows W) where
  refl s := ⟨fun _ h => h, fun h => ⟨_, h, TableDef.Grows.refl _⟩⟩
  trans s s' s'' h h' := by
    refine ⟨fun d hd => h'.databases d (h.databases d hd), fun htable => ?_⟩
    obtain ⟨t', ht', hgrows⟩ := h.tables htable
    obtain ⟨t'', ht'', hgrows'⟩ := h'.tables ht'
    exact ⟨t'', ht'', hgrows.trans hgrows'⟩

/-- A column is added at the end. -/
theorem TableDef.grows_add (column : String) (type : SqlType) :
    t.Grows W { t with columns := t.columns ++ [(column, type)] } where
  engine := rfl
  keys := by simp [Dict.keys]
  types := by
    intro name type' hlookup
    refine ⟨type', ?_, refl_of W _⟩
    rw [List.lookup_append, hlookup]
    rfl

/-- The type of a column changes along `W`. -/
theorem TableDef.grows_set {column : String} {type type' : SqlType}
    (h : t.columns.lookup column = some type) (hW : W type type') :
    t.Grows W { t with columns := Dict.set t.columns column type' } where
  engine := rfl
  keys := by
    have hmem : column ∈ Dict.keys t.columns := by
      rw [← Dict.lookup_isSome_iff, h]
      rfl
    rw [Dict.keys_set_of_mem hmem]
  types := by
    intro name current hlookup
    rw [Dict.lookup_set]
    by_cases hname : name = column
    · rw [hname, h] at hlookup
      obtain rfl := Option.some.inj hlookup
      exact ⟨type', by rw [if_pos hname], hW⟩
    · exact ⟨current, by rwa [if_neg hname], refl_of W _⟩

end

namespace Server

/-- A column is changed along `W`, whether the table that the statement addresses is the one that was
inspected before or another one. -/
def Retypes (conn : Connector) (W : SqlType → SqlType → Prop) (name : TableName) : Prop :=
  ∀ seen a, inspected conn name = .ok seen →
    (TableRef.pasted (name.toText conn.naming)).address conn.naming conn.config = some a →
    ∀ current current' wanted new, (seen = a → current = current') →
      conn.adapt current wanted = .ok (some new) → W current' new

section

variable {conn : Connector} {W : SqlType → SqlType → Prop} [IsPreorder SqlType W]
  {name : TableName} {s t : Server} {ddl : Ddl}

theorem grows_withFates (s : Server) (fates : List Fate) : s.Grows W (s.withFates fates) where
  databases := fun _ h => h
  tables := fun h => ⟨_, h, TableDef.Grows.refl _⟩

theorem grows_addDatabase (database : String) (s : Server) :
    s.Grows W (s.addDatabase database) where
  databases := fun _ h => List.mem_insert_of_mem h
  tables := fun h => ⟨_, h, TableDef.Grows.refl _⟩

theorem grows_setTable {a : Address} {table : Option TableDef} (h : a.database ∈ s.databases)
    (hgrows : ∀ t, s.tables a = some t → ∃ t', table = some t' ∧ t.Grows W t') :
    s.Grows W (s.setTable a table h) where
  databases := fun _ h => h
  tables := by
    intro b t hb
    by_cases hba : b = a
    · subst hba
      obtain ⟨t', htable, hgrows'⟩ := hgrows t hb
      exact ⟨t', (tables_setTable_self s h).trans htable, hgrows'⟩
    · exact ⟨t, (Function.update_of_ne hba ..).trans hb, TableDef.Grows.refl _⟩

/-- A statement that is sent takes one fate, and moves the server by its effect or not at all. -/
theorem send_cases (effect : Server → Except Exn Server) (s : Server) :
    (send effect s).2 = s ∨ ∃ fate fates, s.fates = fate :: fates ∧
      ((send effect s).2 = s.withFates fates ∨
        effect (s.withFates fates) = .ok (send effect s).2) := by
  unfold send
  rcases s.fates with _ | ⟨fate, fates⟩
  · exact Or.inl rfl
  · refine Or.inr ⟨fate, fates, rfl, ?_⟩
    dsimp only
    rcases heffect : effect (s.withFates fates) with e | t
    · exact Or.inl rfl
    · cases fate with
      | answered => exact Or.inr rfl
      | unheard => exact Or.inr rfl
      | refused => exact Or.inl rfl

/-- A server grows by a statement whose effect lets it grow. -/
theorem grows_send {effect : Server → Except Exn Server}
    (h : ∀ fates t, effect (s.withFates fates) = .ok t → (s.withFates fates).Grows W t) :
    s.Grows W (send effect s).2 := by
  rcases send_cases effect s with hstay | ⟨-, fates, -, hlost | hrun⟩
  · exact hstay.symm ▸ refl_of _ s
  · exact hlost.symm ▸ grows_withFates s fates
  · exact trans_of _ (grows_withFates s fates) (h fates _ hrun)

theorem tables_send {effect : Server → Except Exn Server}
    (h : ∀ fates t, effect (s.withFates fates) = .ok t → t.tables = s.tables) :
    (send effect s).2.tables = s.tables := by
  rcases send_cases effect s with hstay | ⟨-, fates, -, hlost | hrun⟩
  · exact congrArg tables hstay
  · rw [hlost]
    rfl
  · exact h fates _ hrun

theorem send_eq_ok {effect : Server → Except Exn Server} (h : send effect s = (.ok (), t)) :
    ∃ fates, s.fates = .answered :: fates ∧ effect (s.withFates fates) = .ok t := by
  unfold send at h
  rcases hfates : s.fates with _ | ⟨fate, fates⟩
  · rw [hfates] at h
    cases h
  · rw [hfates] at h
    dsimp only at h
    rcases heffect : effect (s.withFates fates) with e | t'
    · rw [heffect] at h
      cases h
    · rw [heffect] at h
      cases fate with
      | answered =>
        obtain ⟨-, rfl⟩ := Prod.mk.inj h
        exact ⟨fates, rfl, heffect⟩
      | unheard => cases h
      | refused => cases h

/-- What a statement does that the server runs. -/
theorem execute_eq_ok (h : execute conn ddl s = .ok t) :
    ∃ a hdatabase, addressOf conn ddl = some a ∧ ddl.runsOn (s.tables a) = true ∧
      t = s.setTable a (ddl.apply (s.tables a)) hdatabase := by
  unfold execute at h
  rcases haddress : addressOf conn ddl with _ | a
  · rw [haddress] at h
    cases h
  · rw [haddress] at h
    dsimp only at h
    split_ifs at h with hdatabase hruns
    exact ⟨a, hdatabase, rfl, hruns, (Except.ok.inj h).symm⟩

theorem issued_createEmptyTable {schema : Schema} {keys : Option (List String)}
    {asTempTable : Bool}
    (h : issued conn name (.createEmptyTable schema keys asTempTable) s = .ok (some ddl)) :
    ∃ a, Sink.createdTable conn.config name = .ok a ∧ s.tables a = none ∧
      conn.createEmptyTable name schema keys asTempTable = .ok ddl := by
  obtain ⟨a, ha, h⟩ := Dict.bind_eq_ok_iff.1 h
  obtain ⟨created, hcreated, hpure⟩ := Dict.bind_eq_ok_iff.1 h
  have hsome := Except.ok.inj hpure
  split_ifs at hsome with htable
  obtain rfl := Option.some.inj hsome
  exact ⟨a, ha, by simpa using htable, hcreated⟩

theorem issued_prepareColumn {column : String} {wanted : SqlType} {issue : Option Ddl}
    (h : issued conn name (.prepareColumn column wanted) s = .ok issue) :
    ∃ seen t, inspected conn name = .ok seen ∧ s.tables seen = some t ∧
      conn.prepareColumn name t column wanted = .ok issue := by
  obtain ⟨seen, hseen, h⟩ := Dict.bind_eq_ok_iff.1 h
  rcases htable : s.tables seen with _ | t
  · rw [htable] at h
    cases h
  · rw [htable] at h
    exact ⟨seen, t, hseen, htable, h⟩

/-- What `prepare_column` makes of a column: it is missing, its type is adapted, or the SDK cannot
adapt it. -/
theorem prepareColumn_cases {t : TableDef} {column : String} {wanted : SqlType}
    {issue : Option Ddl} (h : conn.prepareColumn name t column wanted = .ok issue) :
    (t.columns.lookup column = none ∧
        issue = some (Connector.getColumnAddDdl (name.toText conn.naming) column wanted)) ∨
      ∃ current, t.columns.lookup column = some current ∧
        ((∃ adapted, conn.adapt current wanted = .ok adapted ∧
            issue = adapted.map (conn.getColumnAlterDdl (name.toText conn.naming) column)) ∨
          ∃ msg, conn.adapt current wanted = .error (.notImplementedError msg) ∧
            issue = none) := by
  unfold Connector.prepareColumn at h
  rcases hlookup : t.columns.lookup column with _ | current
  · rw [hlookup] at h
    exact Or.inl ⟨rfl, (Except.ok.inj h).symm⟩
  · refine Or.inr ⟨current, rfl, ?_⟩
    simp only [hlookup] at h
    rcases hadapt : conn.adapt current wanted with e | adapted
    · rw [hadapt] at h
      cases e with
      | notImplementedError msg => exact Or.inr ⟨msg, rfl, (Except.ok.inj h).symm⟩
      | _ => cases h
    · rw [hadapt] at h
      exact Or.inl ⟨adapted, rfl, (Except.ok.inj h).symm⟩

/-- The server grows by a statement that it runs, if a changed column changes along `W`. -/
theorem grows_executed (h : execute conn ddl s = .ok t)
    (hmodify : ∀ {a table address column type cluster current},
      ddl = .modifyColumn address column type cluster → addressOf conn ddl = some a →
        s.tables a = some table → table.columns.lookup column = some current → W current type) :
    s.Grows W t := by
  obtain ⟨a, hdatabase, haddress, hruns, rfl⟩ := execute_eq_ok h
  refine grows_setTable hdatabase fun table htable => ?_
  rw [htable] at hruns ⊢
  cases ddl with
  | createTable address definition cluster => cases hruns
  | addColumn address column type cluster =>
    rw [Ddl.apply]
    split_ifs
    · exact ⟨table, rfl, TableDef.Grows.refl _⟩
    · exact ⟨_, rfl, TableDef.grows_add column type⟩
  | modifyColumn address column type cluster =>
    have hmem : column ∈ Dict.keys table.columns := of_decide_eq_true hruns
    obtain ⟨current, hcurrent⟩ := Option.isSome_iff_exists.1 (Dict.lookup_isSome_iff.2 hmem)
    refine ⟨_, by rw [Ddl.apply, if_pos hmem], TableDef.grows_set hcurrent ?_⟩
    exact hmodify rfl haddress htable hcurrent

/-- The statements of `create_empty_table` and of `prepare_column` grow the table they address. -/
theorem grows_execute (hretypes : Retypes conn W name) {op : SchemaOp} {s₀ : Server}
    (hissued : issued conn name op s₀ = .ok (some ddl)) (htables : s.tables = s₀.tables)
    (h : execute conn ddl s = .ok t) : s.Grows W t := by
  refine grows_executed h ?_
  rintro a table address column type cluster current' rfl haddress htable hcurrent'
  cases op with
  | createEmptyTable schema keys asTempTable =>
    obtain ⟨b, -, -, hddl⟩ := issued_createEmptyTable hissued
    obtain ⟨-, a', -, columns, engine, -, -, -, -, hcreate⟩ := Connector.createEmptyTable_eq_ok hddl
    cases hcreate
  | prepareColumn column' wanted =>
    obtain ⟨seen, inspectedTable, hseen, hinspected, hprepare⟩ := issued_prepareColumn hissued
    rcases prepareColumn_cases hprepare with ⟨-, hadd⟩ | ⟨current, hcurrent, hadapted⟩
    · cases hadd
    · obtain ⟨adapted, hadapt, hmap⟩ | ⟨-, -, hnone⟩ := hadapted
      · obtain ⟨new, rfl, hddl⟩ := Option.map_eq_some_iff.1 hmap.symm
        obtain ⟨rfl, rfl, rfl, -⟩ := Ddl.modifyColumn.inj hddl
        refine hretypes seen a hseen haddress current current' wanted new (fun hsame => ?_) hadapt
        -- the inspected table is the changed one
        rw [← hsame, htables, hinspected] at htable
        obtain rfl := Option.some.inj htable
        exact Option.some.inj (hcurrent.symm.trans hcurrent')
      · cases hnone

/-- Whatever an operation does and however it ends, the server has grown. -/
theorem moves_perform (hretypes : Retypes conn W name) (op : SchemaOp) :
    Moves (Server.Grows W) (perform conn name op) := by
  intro s
  unfold perform
  rw [bind_apply]
  rcases hissued : issued conn name op s with e | issue
  · have hobserve : observe (issued conn name op) s = (.raised e, s) := by
      rw [observe, hissued]
      rfl
    rw [hobserve]
    exact refl_of _ s
  · rw [(observe_eq_ok (f := issued conn name op)).2 ⟨hissued, rfl⟩]
    cases issue with
    | none => exact refl_of _ s
    | some ddl => exact grows_send fun fates t hrun => grows_execute hretypes hissued rfl hrun

/-! ## What a return guarantees -/

/-- An operation that returns issued nothing, or its statement was run and answered. -/
theorem perform_eq_ok {op : SchemaOp} (h : perform conn name op s = (.ok (), t)) :
    (issued conn name op s = .ok none ∧ t = s) ∨ ∃ ddl fates, s.fates = .answered :: fates ∧
      issued conn name op s = .ok (some ddl) ∧ execute conn ddl (s.withFates fates) = .ok t := by
  obtain ⟨issue, s', hobserve, h⟩ := bind_eq_ok.1 h
  obtain ⟨hissued, rfl⟩ := observe_eq_ok.1 hobserve
  cases issue with
  | none => exact Or.inl ⟨hissued, (Prod.mk.inj h).2.symm⟩
  | some ddl =>
    obtain ⟨fates, hfates, hrun⟩ := send_eq_ok h
    exact Or.inr ⟨ddl, fates, hfates, hissued, hrun⟩

/-- When `create_empty_table` returns, the table is there: it was, or it has been created. -/
theorem createEmptyTable_returns {schema : Schema} {keys : Option (List String)}
    {asTempTable : Bool}
    (h : perform conn name (.createEmptyTable schema keys asTempTable) s = (.ok (), t)) :
    ∃ a definition, Sink.createdTable conn.config name = .ok a ∧
      conn.createEmptyTable name schema keys asTempTable =
        .ok (.createTable a definition conn.cluster) ∧
      (((s.tables a).isSome = true ∧ t = s) ∨
        (s.tables a = none ∧ t.tables = Function.update s.tables a (some definition))) := by
  rcases perform_eq_ok h with ⟨hissued, rfl⟩ | ⟨ddl, fates, -, hissued, hrun⟩
  · obtain ⟨a, ha, hissued⟩ := Dict.bind_eq_ok_iff.1 hissued
    obtain ⟨ddl, hddl, hpure⟩ := Dict.bind_eq_ok_iff.1 hissued
    obtain ⟨-, a', -, columns, engine, ha', -, -, -, rfl⟩ := Connector.createEmptyTable_eq_ok hddl
    obtain rfl := Except.ok.inj (ha.symm.trans ha')
    have hnone := Except.ok.inj hpure
    split_ifs at hnone with htable
    exact ⟨a, _, ha, hddl, Or.inl ⟨htable, rfl⟩⟩
  · obtain ⟨a, ha, htable, hddl⟩ := issued_createEmptyTable hissued
    obtain ⟨-, a', -, columns, engine, ha', -, -, -, rfl⟩ := Connector.createEmptyTable_eq_ok hddl
    obtain rfl := Except.ok.inj (ha.symm.trans ha')
    obtain ⟨b, hdatabase, haddress, -, rfl⟩ := execute_eq_ok hrun
    obtain rfl := Option.some.inj haddress
    refine ⟨a, _, ha, hddl, Or.inr ⟨htable, ?_⟩⟩
    have hnone : (s.withFates fates).tables a = none := htable
    rw [hnone]
    rfl

end

/-- The SDK adapts columns to more general types: `W` leads from a type to the types that are at
least as general. -/
structure Adapts (conn : Connector) (W : SqlType → SqlType → Prop) : Prop where
  nullable : ∀ type, W type (.nullable type)
  keeps : ∀ {current wanted}, conn.adapt current wanted = .ok none → W wanted current
  widens : ∀ {current wanted new}, conn.adapt current wanted = .ok (some new) →
    W current new ∧ W wanted new
  /-- The connector allows every change of a column. -/
  implemented : ∀ {current wanted msg},
    conn.adapt current wanted ≠ .error (.notImplementedError msg)

/-- The statements about the name address the table that is inspected under it. -/
def Aligned (conn : Connector) (name : TableName) : Prop :=
  ∀ a, (TableRef.pasted (name.toText conn.naming)).address conn.naming conn.config = some a →
    inspected conn name = .ok a

section

variable {conn : Connector} {W : SqlType → SqlType → Prop} {name : TableName} {s t : Server}

theorem Aligned.retypes (haligned : Aligned conn name) (hadapts : Adapts conn W) :
    Retypes conn W name := by
  intro seen a hseen ha current current' wanted new hsame hadapt
  have hsa : seen = a := Except.ok.inj (hseen.symm.trans (haligned a ha))
  rw [← hsame hsa]
  exact (hadapts.widens hadapt).1

/-- When `prepare_column` returns, the column is there with a type that is general enough. -/
theorem prepareColumn_returns [IsPreorder SqlType W] (haligned : Aligned conn name)
    (hadapts : Adapts conn W) {column : String} {wanted : SqlType}
    (h : perform conn name (.prepareColumn column wanted) s = (.ok (), t)) :
    ∃ a table type, inspected conn name = .ok a ∧ t.tables a = some table ∧
      table.columns.lookup column = some type ∧ W wanted type := by
  rcases perform_eq_ok h with ⟨hissued, rfl⟩ | ⟨ddl, fates, -, hissued, hrun⟩
  · obtain ⟨a, table, ha, htable, hprepare⟩ := issued_prepareColumn hissued
    obtain ⟨-, hnone⟩ | ⟨current, hcurrent, ⟨adapted, hadapt, hmap⟩ | ⟨msg, hadapt, -⟩⟩ :=
      prepareColumn_cases hprepare
    · cases hnone
    · obtain rfl := Option.map_eq_none_iff.1 hmap.symm
      exact ⟨a, table, current, ha, htable, hcurrent, hadapts.keeps hadapt⟩
    · exact absurd hadapt hadapts.implemented
  · obtain ⟨a, table, ha, htable, hprepare⟩ := issued_prepareColumn hissued
    obtain ⟨b, hdatabase, haddress, -, rfl⟩ := execute_eq_ok hrun
    have htable' : (s.withFates fates).tables a = some table := htable
    obtain ⟨hmissing, hadd⟩ | ⟨current, hcurrent, ⟨adapted, hadapt, hmap⟩ | ⟨msg, hadapt, -⟩⟩ :=
      prepareColumn_cases hprepare
    · obtain rfl := Option.some.inj hadd
      obtain rfl : a = b := Except.ok.inj (ha.symm.trans (haligned b haddress))
      have hmem : column ∉ Dict.keys table.columns := by
        rw [← Dict.lookup_isSome_iff, hmissing]
        simp
      refine ⟨a, { table with columns := table.columns ++ [(column, wanted)] }, wanted, ha, ?_, ?_,
        refl_of W _⟩
      · rw [tables_setTable_self, htable', Connector.getColumnAddDdl, Ddl.apply, if_neg hmem]
      · rw [List.lookup_append, hmissing, Dict.lookup_cons, if_pos rfl]
        rfl
    · obtain ⟨new, rfl, rfl⟩ := Option.map_eq_some_iff.1 hmap.symm
      obtain rfl : a = b := Except.ok.inj (ha.symm.trans (haligned b haddress))
      have hmem : column ∈ Dict.keys table.columns := by
        rw [← Dict.lookup_isSome_iff, hcurrent]
        rfl
      refine ⟨a, { table with columns := Dict.set table.columns column new }, new, ha, ?_, ?_,
        (hadapts.widens hadapt).2⟩
      · rw [tables_setTable_self, htable', Connector.getColumnAlterDdl, Ddl.apply, if_pos hmem]
      · rw [Dict.lookup_set, if_pos rfl]
    · exact absurd hadapt hadapts.implemented

end

end Server

end TargetClickhouse
