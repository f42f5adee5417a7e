import TargetClickhouse.Config
import TargetClickhouse.Lib.Dict
import TargetClickhouse.Lib.Template

/-!
# Table engines

`create_engine_wrapper` chooses the engine of a new table.  A stream without primary keys gets an
engine that does not collapse rows, and a replicated engine needs the path and the replica name of
the settings.
-/

namespace TargetClickhouse

/-- `SupportedEngines`. -/
inductive SupportedEngine where
  | mergeTree
  | replacingMergeTree
  | summingMergeTree
  | aggregatingMergeTree
  | replicatedMergeTree
  | replicatedReplacingMergeTree
  | replicatedSummingMergeTree
  | replicatedAggregatingMergeTree
  deriving DecidableEq, Repr

namespace SupportedEngine

def value : SupportedEngine → String
  | mergeTree => "MergeTree"
  | replacingMergeTree => "ReplacingMergeTree"
  | summingMergeTree => "SummingMergeTree"
  | aggregatingMergeTree => "AggregatingMergeTree"
  | replicatedMergeTree => "ReplicatedMergeTree"
  | replicatedReplacingMergeTree => "ReplicatedReplacingMergeTree"
  | replicatedSummingMergeTree => "ReplicatedSummingMergeTree"
  | replicatedAggregatingMergeTree => "ReplicatedAggregatingMergeTree"

/-- The members in the order of the class. -/
def members : List SupportedEngine :=
  [mergeTree, replacingMergeTree, summingMergeTree, aggregatingMergeTree, replicatedMergeTree,
    replicatedReplacingMergeTree, replicatedSummingMergeTree, replicatedAggregatingMergeTree]

/-- The member that is equal to the text. -/
def ofValue (text : String) : Option SupportedEngine := members.find? fun e => e.value = text

/-- `COLLAPSING_ENGINE_FALLBACK`. -/
def collapsingFallback : SupportedEngine → Option SupportedEngine
  | replacingMergeTree => some mergeTree
  | summingMergeTree => some mergeTree
  | aggregatingMergeTree => some mergeTree
  | replicatedReplacingMergeTree => some replicatedMergeTree
  | replicatedSummingMergeTree => some replicatedMergeTree
  | replicatedAggregatingMergeTree => some replicatedMergeTree
  | mergeTree => none
  | replicatedMergeTree => none

/-- The engines that take a table path and a replica name. -/
def isReplicated : SupportedEngine → Bool
  | replicatedMergeTree => true
  | replicatedReplacingMergeTree => true
  | replicatedSummingMergeTree => true
  | replicatedAggregatingMergeTree => true
  | _ => false

/-- Every member is found under its value. -/
theorem ofValue_value (e : SupportedEngine) : ofValue e.value = some e := by
  cases e <;> decide

/-- The engine for a stream with the given primary keys. -/
def safeFor (e : SupportedEngine) (primaryKeys : List String) : SupportedEngine :=
  if primaryKeys = [] then e.collapsingFallback.getD e else e

theorem isReplicated_safeFor (e : SupportedEngine) (primaryKeys : List String) :
    (e.safeFor primaryKeys).isReplicated = e.isReplicated := by
  unfold safeFor
  split_ifs
  · cases e <;> rfl
  · rfl

end SupportedEngine

/-- The value of `order_by`. -/
inductive OrderBy where
  /-- `func.tuple()`. -/
  | emptyTuple
  | keys (names : List String)
  deriving DecidableEq, Repr

/-- An engine with the arguments it is built from. -/
structure Engine where
  engineClass : SupportedEngine
  primaryKey : Option (List String)
  orderBy : Option OrderBy
  tablePath : Option String
  replicaName : Option String
  deriving DecidableEq, Repr

/-- The exceptions of `Template.substitute`. -/
def templateExn : Template.Error → Exn
  | .unknown name => .keyError name
  | .invalid => .valueError "Invalid placeholder in string"

/-- `table_path`, with the table's name for `$table_name`. -/
def substitutedPath (path tableName : String) : Except Exn String :=
  if '$' ∈ path.toList then
    (Template.substitute (fun name => if name = "table_name" then some tableName else none)
      path).mapError templateExn
  else .ok path

/-- The arguments `table_path` and `replica_name` of a replicated engine. -/
def replicationArgs (c : Config) (tableName : String) : Except Exn (String × String) := do
  let path ← match c.tablePath with
    | some path => substitutedPath path tableName
    | none => .error (.valueError "Table path (table_path) is not defined.")
  match c.replicaName with
  | some replica => return (path, replica)
  | none => .error (.valueError "Replica name (replica_name) is not defined.")

/-- `create_engine_wrapper`.  The class of a replicated engine has the two arguments as parameters
without defaults. -/
def createEngineWrapper (engineType : String) (primaryKeys : List String) (tableName : String)
    (config : Option Config) (orderByKeys : Option (List String)) : Except Exn Engine :=
  match SupportedEngine.ofValue engineType with
  | none => .error (.valueError ("Engine type " ++ engineType ++ " is not supported."))
  | some requested =>
      let engineClass := requested.safeFor primaryKeys
      let primaryKey := if primaryKeys = [] then none else some primaryKeys
      let orderBy := match orderByKeys with
        | some names => some (.keys names)
        | none => if primaryKeys = [] then some .emptyTuple else none
      match config, engineClass.isReplicated with
      | some c, true => do
          let (path, replica) ← replicationArgs c tableName
          return ⟨engineClass, primaryKey, orderBy, some path, some replica⟩
      | none, true => .error .typeError
      | _, false => .ok ⟨engineClass, primaryKey, orderBy, none, none⟩

/-- Looking for a delimiter first changes nothing. -/
theorem substitutedPath_eq (path tableName : String) :
    substitutedPath path tableName =
      (Template.substitute (fun name => if name = "table_name" then some tableName else none)
        path).mapError templateExn := by
  unfold substitutedPath
  split_ifs with h
  · rfl
  · rw [Template.substitute_of_not_mem _ h]
    rfl

example : substitutedPath "/clickhouse/$\x7btable_name\x7d/$$1" "users" =
    .ok "/clickhouse/users/$1" := by decide

/-- What is known of an engine that is created. -/
theorem createEngineWrapper_eq_ok {engineType : String} {primaryKeys : List String}
    {tableName : String} {config : Option Config} {orderByKeys : Option (List String)}
    {engine : Engine}
    (h : createEngineWrapper engineType primaryKeys tableName config orderByKeys = .ok engine) :
    ∃ requested, SupportedEngine.ofValue engineType = some requested ∧
      engine.engineClass = requested.safeFor primaryKeys ∧
      engine.primaryKey = (if primaryKeys = [] then none else some primaryKeys) ∧
      engine.orderBy = (orderByKeys.map .keys).or
        (if primaryKeys = [] then some .emptyTuple else none) := by
  unfold createEngineWrapper at h
  cases hrequested : SupportedEngine.ofValue engineType with
  | none =>
    rw [hrequested] at h
    cases h
  | some requested =>
    simp only [hrequested] at h
    split at h
    · obtain ⟨⟨path, replica⟩, -, hok⟩ := Dict.bind_eq_ok_iff.1 h
      obtain rfl := Except.ok.inj hok
      exact ⟨requested, rfl, rfl, rfl, by cases orderByKeys <;> rfl⟩
    · cases h
    · obtain rfl := Except.ok.inj h
      exact ⟨requested, rfl, rfl, rfl, by cases orderByKeys <;> rfl⟩

/-- The engine that is created for a supported engine type. -/
theorem engineClass_of_createEngineWrapper {engineType : String} {requested : SupportedEngine}
    (hrequested : SupportedEngine.ofValue engineType = some requested) {primaryKeys : List String}
    {tableName : String} {config : Option Config} {orderByKeys : Option (List String)}
    {engine : Engine}
    (h : createEngineWrapper engineType primaryKeys tableName config orderByKeys = .ok engine) :
    engine.engineClass = requested.safeFor primaryKeys := by
  obtain ⟨requested', hrequested', hclass, -⟩ := createEngineWrapper_eq_ok h
  obtain rfl := Option.some.inj (hrequested.symm.trans hrequested')
  exact hclass

/-- The engine is replicated exactly when a replicated engine was asked for. -/
theorem isReplicated_of_createEngineWrapper {engineType : String} {requested : SupportedEngine}
    (hrequested : SupportedEngine.ofValue engineType = some requested) {primaryKeys : List String}
    {tableName : String} {config : Option Config} {orderByKeys : Option (List String)}
    {engine : Engine}
    (h : createEngineWrapper engineType primaryKeys tableName config orderByKeys = .ok engine) :
    engine.engineClass.isReplicated = requested.isReplicated := by
  rw [engineClass_of_createEngineWrapper hrequested h]
  exact SupportedEngine.isReplicated_safeFor requested primaryKeys

/-! ## Sorting keys -/

/-- Rows that agree on the sorting key are collapsed. -/
def SupportedEngine.collapses (e : SupportedEngine) : Bool := e.collapsingFallback.isSome

theorem SupportedEngine.collapses_safeFor_nil (e : SupportedEngine) :
    (e.safeFor []).collapses = false := by
  cases e <;> rfl

namespace Engine

/-- The columns of `order_by` when it is passed, otherwise of the primary key. -/
def sortingKey (e : Engine) : List String :=
  match e.orderBy with
  | some (.keys names) => names
  | some .emptyTuple => []
  | none => e.primaryKey.getD []

/-- The engine does not collapse rows with different primary keys, and the server accepts its keys.
-/
structure KeepsKeysApart (requested : SupportedEngine) (primaryKeys : List String) (e : Engine) :
    Prop where
  isPrefix : e.primaryKey.getD [] <+: e.sortingKey
  sortingKey_ne_nil : e.engineClass.collapses = true → e.sortingKey ≠ []
  mem_sortingKey : e.engineClass.collapses = true → ∀ name ∈ primaryKeys, name ∈ e.sortingKey
  /-- Rows with the same sorting key have the same primary key. -/
  separates : e.engineClass.collapses = true → ∀ row row' : String → Value,
    (∀ name ∈ e.sortingKey, row name = row' name) → ∀ name ∈ primaryKeys, row name = row' name
  isReplicated : e.engineClass.isReplicated = requested.isReplicated

variable {engineType tableName : String} {primaryKeys : List String} {config : Option Config}
  {orderByKeys : Option (List String)} {engine : Engine}

/-- The configured sorting key, or the primary keys. -/
theorem sortingKey_of_createEngineWrapper
    (h : createEngineWrapper engineType primaryKeys tableName config orderByKeys = .ok engine) :
    engine.primaryKey.getD [] = primaryKeys ∧
      engine.sortingKey = orderByKeys.getD primaryKeys := by
  obtain ⟨-, -, -, hprimary, horder⟩ := createEngineWrapper_eq_ok h
  have hkey : engine.primaryKey.getD [] = primaryKeys := by
    rw [hprimary]
    split_ifs with hnil
    · exact hnil.symm
    · rfl
  refine ⟨hkey, ?_⟩
  unfold sortingKey
  rw [horder]
  cases orderByKeys with
  | some names => rfl
  | none =>
    by_cases hnil : primaryKeys = []
    · simp [hnil]
    · simp only [if_neg hnil]
      exact hkey

/-- Rows with different primary keys are kept apart unless `order_by_keys` does not start with the
primary keys. -/
theorem keepsKeysApart_iff
    (h : createEngineWrapper engineType primaryKeys tableName config orderByKeys = .ok engine) :
    ∃ requested, SupportedEngine.ofValue engineType = some requested ∧
      (engine.KeepsKeysApart requested primaryKeys ↔
        ∀ names, orderByKeys = some names → primaryKeys <+: names) := by
  obtain ⟨requested, hrequested, hclass, -⟩ := createEngineWrapper_eq_ok h
  obtain ⟨hprimary, hsorting⟩ := sortingKey_of_createEngineWrapper h
  refine ⟨requested, hrequested, ?_⟩
  constructor
  · rintro hkeeps names rfl
    have hkeys := hkeeps.isPrefix
    rwa [hprimary, hsorting] at hkeys
  · intro hnames
    have hkeys : primaryKeys <+: engine.sortingKey := by
      rw [hsorting]
      cases orderByKeys with
      | none => exact List.prefix_rfl
      | some names => exact hnames names rfl
    exact
      { isPrefix := by rwa [hprimary]
        sortingKey_ne_nil := by
          intro hcollapses hnil
          -- a collapsing engine is only built for a stream with primary keys
          rw [hnil, List.prefix_nil] at hkeys
          rw [hclass, hkeys, SupportedEngine.collapses_safeFor_nil] at hcollapses
          cases hcollapses
        mem_sortingKey := fun _ name hname => hkeys.subset hname
        separates := fun _ row row' hrow name hname => hrow name (hkeys.subset hname)
        isReplicated := isReplicated_of_createEngineWrapper hrequested h }

/-- A collapsing engine whose `order_by_keys` start with the primary key. -/
theorem keepsKeysApart_extended :
    (⟨.replacingMergeTree, some ["id"], some (.keys ["id", "name"]), none, none⟩ :
      Engine).KeepsKeysApart .replacingMergeTree ["id"] := by
  have h : createEngineWrapper "ReplacingMergeTree" ["id"] "users" none (some ["id", "name"]) =
      .ok ⟨.replacingMergeTree, some ["id"], some (.keys ["id", "name"]), none, none⟩ := by decide
  obtain ⟨requested, hrequested, hiff⟩ := keepsKeysApart_iff h
  obtain rfl : .replacingMergeTree = requested := Option.some.inj hrequested
  refine hiff.2 fun names hnames => ?_
  obtain rfl := Option.some.inj hnames
  decide

/-- With `order_by_keys` set to another column, rows with different ids are collapsed. -/
theorem not_keepsKeysApart_order_by :
    ∃ engine, createEngineWrapper "ReplacingMergeTree" ["id"] "users" none (some ["name"]) =
        .ok engine ∧ ¬ engine.KeepsKeysApart .replacingMergeTree ["id"] := by
  refine ⟨⟨.replacingMergeTree, some ["id"], some (.keys ["name"]), none, none⟩, by decide, ?_⟩
  intro hkeeps
  have hmem := hkeeps.mem_sortingKey rfl "id" List.mem_cons_self
  revert hmem
  decide

end Engine

end TargetClickhouse
