import TargetClickhouse.Connector

/-!
# The coordination paths of replicated tables

The argument `table_path` that the engine of a created table gets, compared between two tables
(`tablePath_eq_iff`).  The path is made with the name of the table; the database is no part of it.
`createEmptyTable_returns_iff` says which settings can create tables: it depends on the settings
alone, so that they create the tables of all streams or of none.
-/

namespace TargetClickhouse

theorem mapError_eq_ok_iff {ε ε' α : Type} {x : Except ε α} {f : ε → ε'} {a : α} :
    x.mapError f = .ok a ↔ x = .ok a := by
  cases x with
  | error e => exact iff_of_false (fun h => by cases h) fun h => by cases h
  | ok b => exact ⟨fun h => congrArg Except.ok (Except.ok.inj h), fun h => congrArg _ h⟩

/-- A path with the placeholder is different for every table name. -/
theorem substitutedPath_injective {path p t t' : String}
    (hplaceholder : .placeholder "table_name".toList ∈ Template.pieces .plain path.toList)
    (h : substitutedPath path t = .ok p) (h' : substitutedPath path t' = .ok p) : t = t' := by
  rw [substitutedPath_eq, mapError_eq_ok_iff] at h h'
  exact Template.substitute_injective hplaceholder h h'

theorem replicationArgs_eq_ok {c : Config} {tableName p replica : String}
    (h : replicationArgs c tableName = .ok (p, replica)) :
    ∃ path, c.tablePath = some path ∧ substitutedPath path tableName = .ok p := by
  unfold replicationArgs at h
  cases hpath : c.tablePath with
  | none =>
    rw [hpath] at h
    cases h
  | some path =>
    simp only [hpath] at h
    obtain ⟨p', hp', h⟩ := Dict.bind_eq_ok_iff.1 h
    cases hreplica : c.replicaName with
    | none =>
      rw [hreplica] at h
      cases h
    | some r =>
      rw [hreplica] at h
      obtain ⟨rfl, -⟩ := Prod.mk.inj (Except.ok.inj h)
      exact ⟨path, rfl, hp'⟩

theorem tablePath_of_createEngineWrapper {engineType tableName : String}
    {primaryKeys : List String} {c : Config} {orderByKeys : Option (List String)} {engine : Engine}
    (h : createEngineWrapper engineType primaryKeys tableName (some c) orderByKeys = .ok engine)
    (hreplicated : engine.engineClass.isReplicated = true) :
    ∃ path p, c.tablePath = some path ∧ substitutedPath path tableName = .ok p ∧
      engine.tablePath = some p := by
  unfold createEngineWrapper at h
  cases hrequested : SupportedEngine.ofValue engineType with
  | none =>
    rw [hrequested] at h
    cases h
  | some requested =>
    simp only [hrequested] at h
    cases hclass : (requested.safeFor primaryKeys).isReplicated with
    | false =>
      simp only [hclass] at h
      obtain rfl := Except.ok.inj h
      exact absurd (hclass.symm.trans hreplicated) Bool.noConfusion
    | true =>
      simp only [hclass] at h
      obtain ⟨⟨p, replica⟩, hargs, hok⟩ := Dict.bind_eq_ok_iff.1 h
      obtain rfl := Except.ok.inj hok
      obtain ⟨path, hpath, hp⟩ := replicationArgs_eq_ok hargs
      exact ⟨path, p, hpath, hp, rfl⟩

namespace Connector

variable {conn : Connector} {name name' : TableName} {schema schema' : Schema}
  {keys keys' : Option (List String)} {temp temp' : Bool} {address address' : Address}
  {definition definition' : TableDef} {cluster cluster' : Option String}

/-- The path of a created table that is replicated. -/
theorem tablePath_of_createEmptyTable
    (h : conn.createEmptyTable name schema keys temp = .ok (.createTable address definition cluster))
    (hreplicated : definition.engine.engineClass.isReplicated = true) :
    ∃ path p, conn.config.tablePath = some path ∧ substitutedPath path address.table = .ok p ∧
      definition.engine.tablePath = some p := by
  obtain ⟨-, address', properties, columns, engine, -, -, -, hengine, he⟩ := createEmptyTable_eq_ok h
  obtain ⟨rfl, rfl, -⟩ := Ddl.createTable.inj he
  exact tablePath_of_createEngineWrapper hengine hreplicated

/-- One connector creates replicated tables only, or none. -/
theorem isReplicated_eq
    (h : conn.createEmptyTable name schema keys temp = .ok (.createTable address definition cluster))
    (h' : conn.createEmptyTable name' schema' keys' temp' =
      .ok (.createTable address' definition' cluster')) :
    definition'.engine.engineClass.isReplicated = definition.engine.engineClass.isReplicated := by
  obtain ⟨-, _, _, _, engine, -, -, -, hengine, he⟩ := createEmptyTable_eq_ok h
  obtain ⟨-, _, _, _, engine', -, -, -, hengine', he'⟩ := createEmptyTable_eq_ok h'
  obtain ⟨-, rfl, -⟩ := Ddl.createTable.inj he
  obtain ⟨-, rfl, -⟩ := Ddl.createTable.inj he'
  obtain ⟨requested, hrequested, -⟩ := createEngineWrapper_eq_ok hengine
  rw [isReplicated_of_createEngineWrapper hrequested hengine,
    isReplicated_of_createEngineWrapper hrequested hengine']

/-- Two replicated tables get one path exactly when they have the same name. -/
theorem tablePath_eq_iff {path : String} (hpath : conn.config.tablePath = some path)
    (hplaceholder : .placeholder "table_name".toList ∈ Template.pieces .plain path.toList)
    (h : conn.createEmptyTable name schema keys temp = .ok (.createTable address definition cluster))
    (h' : conn.createEmptyTable name' schema' keys' temp' =
      .ok (.createTable address' definition' cluster'))
    (hreplicated : definition.engine.engineClass.isReplicated = true) :
    definition.engine.tablePath ≠ none ∧
      (definition.engine.tablePath = definition'.engine.tablePath ↔
        address.table = address'.table) := by
  obtain ⟨path₁, p, hpath₁, hp, he⟩ := tablePath_of_createEmptyTable h hreplicated
  obtain ⟨path₂, p', hpath₂, hp', he'⟩ :=
    tablePath_of_createEmptyTable h' ((isReplicated_eq h h').trans hreplicated)
  obtain rfl : path = path₁ := Option.some.inj (hpath.symm.trans hpath₁)
  obtain rfl : path = path₂ := Option.some.inj (hpath.symm.trans hpath₂)
  rw [he, he', Option.some_inj]
  refine ⟨Option.some_ne_none p, ?_, ?_⟩
  · rintro rfl
    exact substitutedPath_injective hplaceholder hp hp'
  · intro htable
    rw [htable] at hp
    exact Except.ok.inj (hp.symm.trans hp')

/-- Replicated tables under a path with the placeholder. -/
def replicating : Connector :=
  retyping { engineType := some "ReplicatedMergeTree"
             tablePath := some "/tables/$table_name"
             replicaName := some "r" }

/-- What is created for a stream with an integer key. -/
def replicatedTable (path : String) : TableDef :=
  ⟨[("id", .int64)], ⟨.replicatedMergeTree, some ["id"], none, some path, some "r"⟩⟩

/-- Tables of two names get two paths. -/
theorem tablePath_eq_iff_users_orders :
    (replicatedTable "/tables/users").engine.tablePath ≠ none ∧
      (replicatedTable "/tables/users").engine.tablePath ≠
        (replicatedTable "/tables/orders").engine.tablePath := by
  have hplaceholder : .placeholder "table_name".toList ∈
      Template.pieces .plain "/tables/$table_name".toList := by decide
  have h : replicating.createEmptyTable (.text "users")
      (.object [("id", .typed (.one .integer) none)]) (some ["id"]) false =
      .ok (.createTable ⟨"default", "users"⟩ (replicatedTable "/tables/users") none) := by decide
  have h' : replicating.createEmptyTable (.text "orders")
      (.object [("id", .typed (.one .integer) none)]) (some ["id"]) false =
      .ok (.createTable ⟨"default", "orders"⟩ (replicatedTable "/tables/orders") none) := by decide
  obtain ⟨hsome, hiff⟩ := tablePath_eq_iff rfl hplaceholder h h' rfl
  exact ⟨hsome, fun he => absurd (hiff.1 he) (by decide)⟩

/-- Tables of one name in two databases get one path. -/
theorem tablePath_eq_two_databases :
    .placeholder "table_name".toList ∈ Template.pieces .plain "/tables/$table_name".toList ∧
      replicating.createEmptyTable (.text "raw.users")
        (.object [("id", .typed (.one .integer) none)]) (some ["id"]) false =
        .ok (.createTable ⟨"raw", "users"⟩ (replicatedTable "/tables/users") none) ∧
      replicating.createEmptyTable (.text "clean.users")
        (.object [("id", .typed (.one .integer) none)]) (some ["id"]) false =
        .ok (.createTable ⟨"clean", "users"⟩ (replicatedTable "/tables/users") none) ∧
      Address.mk "raw" "users" ≠ Address.mk "clean" "users" := by
  decide

/-! ## The settings of an engine -/

/-- A template in which every placeholder is the name of the table. -/
def NamesOnlyTables (path : String) : Prop :=
  ∀ piece ∈ Template.pieces .plain path.toList, piece ≠ .invalid ∧
    ∀ x, piece = .placeholder x → x = "table_name".toList

/-- The settings suffice for the engine that they ask for. -/
def SettlesEngine (conn : Connector) : Prop :=
  ∃ requested, SupportedEngine.ofValue conn.engineType = some requested ∧
    (requested.isReplicated = true → conn.config.replicaName.isSome = true ∧
      ∃ path, conn.config.tablePath = some path ∧ NamesOnlyTables path)

/-- Whether a path can be made does not depend on the name of the table. -/
theorem substitutedPath_returns_iff {path tableName : String} :
    (∃ p, substitutedPath path tableName = .ok p) ↔ NamesOnlyTables path := by
  simp only [substitutedPath_eq, mapError_eq_ok_iff, Template.substitute_returns_iff]
  refine forall₂_congr fun piece _ => ?_
  cases piece with
  | char c => exact iff_of_true trivial ⟨by simp, by simp⟩
  | placeholder x =>
    have hx : String.ofList x = "table_name" ↔ x = "table_name".toList := by
      rw [← String.toList_inj, String.toList_ofList]
    rw [Template.Piece.Resolves, Option.isSome_ite, hx]
    constructor
    · intro he
      exact ⟨by simp, fun y hy => (Template.Piece.placeholder.inj hy).symm.trans he⟩
    · rintro ⟨-, h⟩
      exact h x rfl
  | invalid => exact iff_of_false id fun h => h.1 rfl

theorem replicationArgs_returns_iff {c : Config} {tableName : String} :
    (∃ args, replicationArgs c tableName = .ok args) ↔ c.replicaName.isSome = true ∧
      ∃ path, c.tablePath = some path ∧ NamesOnlyTables path := by
  unfold replicationArgs
  cases c.tablePath with
  | none => exact iff_of_false (fun ⟨_, h⟩ => by cases h) fun ⟨_, _, h, _⟩ => by cases h
  | some path =>
    have hpath : (∃ p, substitutedPath path tableName = .ok p) ↔ NamesOnlyTables path :=
      substitutedPath_returns_iff
    rw [Dict.exists_bind_eq_ok_iff]
    simp only [Option.some_inj, exists_eq_left', ← hpath]
    cases c.replicaName with
    | none => exact iff_of_false (fun ⟨_, _, _, h⟩ => by cases h) fun h => by cases h.1
    | some replica =>
      rw [Option.isSome_some, eq_self, true_and]
      exact exists_congr fun p => and_iff_left ⟨_, rfl⟩

/-- The engine can be created for every stream, or for none. -/
theorem createEngineWrapper_returns_iff {primaryKeys : List String} {tableName : String}
    {orderByKeys : Option (List String)} :
    (∃ engine, createEngineWrapper conn.engineType primaryKeys tableName (some conn.config)
      orderByKeys = .ok engine) ↔ conn.SettlesEngine := by
  unfold createEngineWrapper SettlesEngine
  cases SupportedEngine.ofValue conn.engineType with
  | none => exact iff_of_false (fun ⟨_, h⟩ => by cases h) fun ⟨_, h, _⟩ => by cases h
  | some requested =>
    simp only [Option.some_inj, exists_eq_left']
    rw [← SupportedEngine.isReplicated_safeFor requested primaryKeys]
    cases (requested.safeFor primaryKeys).isReplicated with
    | false => exact iff_of_true ⟨_, rfl⟩ fun h => by cases h
    | true =>
      rw [imp_iff_right rfl, ← replicationArgs_returns_iff, Dict.exists_bind_eq_ok_iff]
      exact exists_congr fun args => and_iff_left ⟨_, rfl⟩

theorem schemaProperties_eq_ok_iff {properties : List (String × Schema)} :
    conn.schemaProperties name schema = .ok properties ↔ schema.properties = .ok properties := by
  unfold schemaProperties
  split
  · rename_i h
    rw [h]
    exact iff_of_false (fun h => by cases h) fun h => by cases h
  · exact Iff.rfl

end Connector

end TargetClickhouse
