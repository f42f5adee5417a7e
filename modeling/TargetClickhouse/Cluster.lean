import TargetClickhouse.Connector
import TargetClickhouse.Lib.Runs

/-!
# Schema changes on a cluster

For a table whose engine is not replicated, a statement with an `ON CLUSTER` clause runs on every
node of the cluster, and any other statement only on the connected node.  `keepsAgreement_iff` says
which runs of schema changes keep the definition of the table the same on all nodes.
-/

namespace TargetClickhouse

/-- The definitions of one table on the nodes of a cluster. -/
structure Cluster where
  connected : Option TableDef
  others : List (Option TableDef)
  deriving DecidableEq, Repr

/-- The operations of the connector that change the schema of one table. -/
inductive SchemaOp where
  | createEmptyTable (schema : Schema) (primaryKeys : Option (List String)) (asTempTable : Bool)
  | prepareColumn (column : String) (sqlType : SqlType)

namespace Cluster

def nodes (k : Cluster) : List (Option TableDef) := k.connected :: k.others

/-- All nodes hold the same definition, or none holds the table. -/
def Agree (k : Cluster) : Prop := ∀ node ∈ k.others, node = k.connected

instance (k : Cluster) : Decidable k.Agree :=
  inferInstanceAs (Decidable (∀ node ∈ k.others, node = k.connected))

def execute (k : Cluster) (ddl : Ddl) : Cluster where
  connected := ddl.apply k.connected
  others := if ddl.onCluster.isSome then k.others.map ddl.apply else k.others

/-- The operation prepares a column that the table of the connected node lacks. -/
def addsColumn (k : Cluster) : SchemaOp → Bool
  | .createEmptyTable .. => false
  | .prepareColumn column _ =>
      match k.connected with
      | none => false
      | some t => column ∉ Dict.keys t.columns

/-- The operation adds no column, or there is no other node. -/
def Propagates (k : Cluster) (op : SchemaOp) : Prop := k.others = [] ∨ k.addsColumn op = false

instance (k : Cluster) (op : SchemaOp) : Decidable (k.Propagates op) :=
  inferInstanceAs (Decidable (k.others = [] ∨ k.addsColumn op = false))

variable {k : Cluster} {op : SchemaOp} {ddl : Ddl}

theorem agree_execute_of_onCluster (hagree : k.Agree) (h : ddl.onCluster.isSome) :
    (k.execute ddl).Agree := by
  intro node hnode
  rw [execute, if_pos h] at hnode
  obtain ⟨other, hother, rfl⟩ := List.mem_map.1 hnode
  exact congrArg ddl.apply (hagree other hother)

/-- A statement without the clause keeps the agreement only if it changes nothing. -/
theorem agree_execute_of_local (hagree : k.Agree) (h : ddl.onCluster = none) :
    (k.execute ddl).Agree ↔ k.others = [] ∨ ddl.apply k.connected = k.connected := by
  have hothers : (k.execute ddl).others = k.others := by
    rw [execute, h]
    rfl
  rw [Agree, hothers]
  constructor
  · intro hall
    rcases hlist : k.others with _ | ⟨node, rest⟩
    · exact Or.inl rfl
    · have hmem : node ∈ k.others := by simp [hlist]
      exact Or.inr ((hall node hmem).symm.trans (hagree node hmem))
  · rintro (hnil | hsame) node hnode
    · rw [hnil] at hnode
      cases hnode
    · rw [hagree node hnode]
      exact hsame.symm

end Cluster

/-- Adding a missing column changes a definition. -/
theorem Ddl.apply_addColumn_ne {t : TableDef} {table column : String} {type : SqlType}
    {cluster : Option String} (h : column ∉ Dict.keys t.columns) :
    (Ddl.addColumn table column type cluster).apply (some t) ≠ some t := by
  intro he
  rw [Ddl.apply, if_neg h] at he
  have hcolumns := congrArg (fun d : TableDef => d.columns.length) (Option.some.inj he)
  simp at hcolumns

namespace Connector

variable (conn : Connector) (fullTableName : TableName)

/-- The statement that an operation issues, when the connected node holds the table.  `create_all`
creates only tables that are not there, and the columns of such a table cannot be read. -/
def issued (table : Option TableDef) : SchemaOp → Except Exn (Option Ddl)
  | .createEmptyTable schema primaryKeys asTempTable => do
      let ddl ← conn.createEmptyTable fullTableName schema primaryKeys asTempTable
      return if table.isSome then none else some ddl
  | .prepareColumn column sqlType =>
      match table with
      | none => .error (.other 1)
      | some t => conn.prepareColumn fullTableName t column sqlType

/-- An operation on the cluster; one that raises issues no statement. -/
def changeSchema (k : Cluster) (op : SchemaOp) : Option Cluster :=
  match conn.issued fullTableName k.connected op with
  | .ok (some ddl) => some (k.execute ddl)
  | .ok none => some k
  | .error _ => some k

/-- A column that the operation modifies is there on every node. -/
def ModifiesPresent (k : Cluster) (op : SchemaOp) : Prop :=
  ∀ table column type cluster,
    conn.issued fullTableName k.connected op =
        .ok (some (.modifyColumn table column type cluster)) →
      ∀ node ∈ k.nodes, ∃ t, node = some t ∧ column ∈ Dict.keys t.columns

/-- The nodes agree after every operation, and no operation modifies a column that some node
lacks. -/
def KeepsAgreement (k : Cluster) (ops : List SchemaOp) : Prop :=
  Runs.Throughout (conn.changeSchema fullTableName) Cluster.Agree k ops ∧
    Runs.AllSteps (conn.changeSchema fullTableName) (conn.ModifiesPresent fullTableName) k ops

theorem exists_changeSchema (k : Cluster) (op : SchemaOp) :
    ∃ k', conn.changeSchema fullTableName k op = some k' := by
  unfold changeSchema
  split <;> exact ⟨_, rfl⟩

variable {conn fullTableName} {k k' : Cluster} {op : SchemaOp} {ddl : Ddl}

/-- The statements that operations issue: a table is created that the connected node lacks, a column
is added that its table lacks, or a column is modified that its table has. -/
theorem issued_cases (h : conn.issued fullTableName k.connected op = .ok (some ddl)) :
    (k.addsColumn op = false ∧
        ∃ address definition, ddl = .createTable address definition conn.cluster) ∨
      (k.addsColumn op = true ∧ ∃ t table column type, k.connected = some t ∧
        column ∉ Dict.keys t.columns ∧ ddl = .addColumn table column type none) ∨
      (k.addsColumn op = false ∧ ∃ t table column type, k.connected = some t ∧
        column ∈ Dict.keys t.columns ∧ ddl = .modifyColumn table column type conn.cluster) := by
  cases op with
  | createEmptyTable schema primaryKeys asTempTable =>
    obtain ⟨created, hcreated, hpure⟩ := Dict.bind_eq_ok_iff.1 h
    have hsome := Except.ok.inj hpure
    split_ifs at hsome
    obtain rfl := Option.some.inj hsome
    obtain ⟨-, address, -, columns, engine, -, -, -, -, rfl⟩ := createEmptyTable_eq_ok hcreated
    exact Or.inl ⟨rfl, address, ⟨columns, engine⟩, rfl⟩
  | prepareColumn column sqlType =>
    rcases hconnected : k.connected with _ | t
    · rw [hconnected] at h
      cases h
    · rw [hconnected] at h
      rcases prepareColumn_eq_ok h with ⟨hmissing, hadd⟩ | ⟨hpresent, hmodify⟩
      · have hadds : k.addsColumn (.prepareColumn column sqlType) = true := by
          simp [Cluster.addsColumn, hconnected, hmissing]
        exact Or.inr (Or.inl ⟨hadds, t, _, column, sqlType, rfl, hmissing, Option.some.inj hadd⟩)
      · have hadds : k.addsColumn (.prepareColumn column sqlType) = false := by
          simp [Cluster.addsColumn, hconnected, hpresent]
        obtain ⟨adapted, rfl⟩ := hmodify ddl rfl
        exact Or.inr (Or.inr ⟨hadds, t, _, column, adapted, rfl, hpresent, rfl⟩)

/-- A missing column of a table that is there is always added. -/
theorem addsColumn_eq_false {issued : Except Exn (Option Ddl)}
    (h : conn.issued fullTableName k.connected op = issued)
    (hnone : ∀ ddl, issued ≠ .ok (some ddl)) :
    k.addsColumn op = false := by
  cases op with
  | createEmptyTable schema primaryKeys asTempTable => rfl
  | prepareColumn column sqlType =>
    rcases hconnected : k.connected with _ | t
    · simp [Cluster.addsColumn, hconnected]
    · by_cases hmem : column ∈ Dict.keys t.columns
      · simp [Cluster.addsColumn, hconnected, hmem]
      · refine absurd ?_
          (hnone (getColumnAddDdl (fullTableName.toText conn.naming) column sqlType))
        rw [← h, hconnected]
        simp only [Connector.issued, prepareColumn, Dict.lookup_eq_none hmem]

/-- One operation keeps the agreement exactly when it propagates. -/
theorem agree_changeSchema_iff (hcluster : isSet conn.config.clusterName = true) (hagree : k.Agree)
    (h : conn.changeSchema fullTableName k op = some k') : k'.Agree ↔ k.Propagates op := by
  unfold changeSchema at h
  rcases hissued : conn.issued fullTableName k.connected op with e | _ | ddl <;> rw [hissued] at h
  · obtain rfl := Option.some.inj h
    exact iff_of_true hagree (Or.inr (addsColumn_eq_false hissued (by simp)))
  · obtain rfl := Option.some.inj h
    exact iff_of_true hagree (Or.inr (addsColumn_eq_false hissued (by simp)))
  · obtain rfl := Option.some.inj h
    rcases issued_cases hissued with ⟨hkeep, address, definition, rfl⟩ |
      ⟨hadd, t, table, column, type, hconnected, hmissing, rfl⟩ |
      ⟨hkeep, t, table, column, type, hconnected, hpresent, rfl⟩
    · exact iff_of_true (Cluster.agree_execute_of_onCluster hagree
        (cluster_isSome_iff.2 hcluster)) (Or.inr hkeep)
    · have hne : (Ddl.addColumn table column type none).apply (some t) ≠ some t :=
        Ddl.apply_addColumn_ne hmissing
      rw [Cluster.agree_execute_of_local hagree rfl, Cluster.Propagates, hadd, hconnected]
      simp [hne]
    · exact iff_of_true (Cluster.agree_execute_of_onCluster hagree
        (cluster_isSome_iff.2 hcluster)) (Or.inr hkeep)

/-- While the nodes agree, a column that is modified on one of them is there on all. -/
theorem modifiesPresent_of_agree (hagree : k.Agree) : conn.ModifiesPresent fullTableName k op := by
  intro table column type cluster hissued node hnode
  have hsame : node = k.connected := by
    rcases List.mem_cons.1 hnode with rfl | hother
    · rfl
    · exact hagree node hother
  rcases issued_cases hissued with ⟨-, address, definition, hddl⟩ |
    ⟨-, t, table', column', type', -, -, hddl⟩ |
    ⟨-, t, table', column', type', hconnected, hpresent, hddl⟩
  · cases hddl
  · cases hddl
  · obtain ⟨-, rfl, -, -⟩ := Ddl.modifyColumn.inj hddl
    exact ⟨t, hsame.trans hconnected, hpresent⟩

/-- A run of schema changes keeps the nodes in agreement exactly when it adds no column to a table
that other nodes hold as well. -/
theorem keepsAgreement_iff (hcluster : isSet conn.config.clusterName = true) (hagree : k.Agree)
    (ops : List SchemaOp) :
    conn.KeepsAgreement fullTableName k ops ↔
      Runs.AllSteps (conn.changeSchema fullTableName) Cluster.Propagates k ops := by
  obtain ⟨k', hrun⟩ := Runs.exists_run (conn.exists_changeSchema fullTableName) k ops
  have hiff := Runs.throughout_iff_allSteps (P := Cluster.Agree)
    (fun ha hs => agree_changeSchema_iff hcluster ha hs) hagree hrun
  rw [← hiff]
  exact ⟨fun h => h.1, fun h => ⟨h, h.allSteps modifiesPresent_of_agree⟩⟩

/-- A table is created on two nodes, and the type of a column is changed. -/
theorem keepsAgreement_create_modify :
    (retyping { clusterName := some "main" }).KeepsAgreement (.text "users") ⟨none, [none]⟩
      [.createEmptyTable (.object [("id", .typed (.one .integer) none)]) (some ["id"]) false,
        .prepareColumn "id" .string] :=
  (keepsAgreement_iff rfl (by decide) _).2 (by decide)

/-- A column is added on the connected node only, and then modified on both. -/
theorem not_keepsAgreement_add_modify :
    let conn := retyping { clusterName := some "main" }
    let t : TableDef := ⟨[("id", .int64)], ⟨.mergeTree, some ["id"], none, none, none⟩⟩
    let ops : List SchemaOp := [.prepareColumn "age" .int64, .prepareColumn "age" .string]
    ¬ Runs.Throughout (conn.changeSchema (.text "users")) Cluster.Agree ⟨some t, [some t]⟩ ops ∧
      ¬ Runs.AllSteps (conn.changeSchema (.text "users")) (conn.ModifiesPresent (.text "users"))
        ⟨some t, [some t]⟩ ops ∧
      ¬ conn.KeepsAgreement (.text "users") ⟨some t, [some t]⟩ ops := by
  intro conn t ops
  have hagree : ¬ Runs.Throughout (conn.changeSchema (.text "users")) Cluster.Agree
      ⟨some t, [some t]⟩ ops := fun h => absurd (h.2 _ rfl).1 (by decide)
  refine ⟨hagree, fun h => ?_, fun h => hagree h.1⟩
  obtain ⟨t', ht', hmem⟩ :=
    (h.2 _ rfl).1 "users" "age" .string (some "main") rfl (some t) (by decide)
  obtain rfl := Option.some.inj ht'
  exact absurd hmem (by decide)

end Connector

end TargetClickhouse
