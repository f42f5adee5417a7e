import TargetClickhouse.Schema

/-!
# Settings and sinks

The settings of the target that the modelled functions read, and the sink of one stream.
-/

namespace TargetClickhouse

inductive Driver where
  | http
  | native
  | asynch
  deriving DecidableEq, Repr

/-- The settings; `none` is a setting that `config.get` does not find. -/
structure Config where
  driver : Option Driver := none
  sqlalchemyUrl : Option String := none
  database : String := "default"
  tableName : Option String := none
  clusterName : Option String := none
  optimizeAfter : Option Bool := none
  asyncInsert : Option Bool := none
  /-- `some none` is a setting that is present and null. -/
  insertRetryMaxTries : Option (Option ℤ) := none
  cleanUpBatchFiles : Option Bool := none
  hardDelete : Option Bool := none
  enableJson : Option Bool := none
  validateRecords : Option Bool := none
  engineType : Option String := none
  tablePath : Option String := none
  replicaName : Option String := none
  orderByKeys : Option (List String) := none
  /-- `some none` is a setting that is present and null. -/
  maxBatchBytes : Option (Option ℤ) := none

/-- Python's truth value of a text setting. -/
def isSet : Option String → Bool
  | none => false
  | some s => s ≠ ""

/-- The sink of one stream: its settings, its schema, and the table and schema names that the SDK
derives from the stream name. -/
structure Sink where
  config : Config
  schema : Schema
  tableName : String
  schemaName : Option String

namespace Config

/-- `_use_clickhouse_connect`. -/
def useClickhouseConnect (c : Config) : Bool :=
  c.driver.getD .http = .http && !isSet c.sqlalchemyUrl

/-- `config.get("driver") == "native" and not config.get("sqlalchemy_url")`. -/
def useNativeDriver (c : Config) : Bool :=
  c.driver = some .native && !isSet c.sqlalchemyUrl

/-- `config.get("hard_delete", True)`.  The SDK adds the setting to those of every target, with the
default `False`, so that `none` is the setting of a sink that was made without the SDK. -/
def usesHardDelete (c : Config) : Bool := c.hardDelete.getD true

/-- `config.get("insert_retry_max_tries", 3)`. -/
def maxTries (c : Config) : Option ℤ := c.insertRetryMaxTries.getD (some 3)

/-- `_max_batch_bytes`. -/
def batchBytesLimit (c : Config) : Option ℤ := c.maxBatchBytes.getD (some 70000000)

end Config

end TargetClickhouse
