import TargetClickhouse.Config
import TargetClickhouse.Lib.Dict

/-!
# Column types

The SQL types of columns, the handlers that `jsonschema_to_sql` registers with the SDK, and
`to_sql_type`, which wraps the SDK's type in `Nullable`.
-/

namespace TargetClickhouse

/-- The column types: those of SQLAlchemy that the SDK or the target uses, those of
clickhouse-sqlalchemy, and `ClickHouseJSON`. -/
inductive SqlType where
  | varchar
  | bigint
  | boolean
  | decimal (precision scale : ℕ)
  | float
  | integer
  | date
  | time
  | timestamp
  /-- The type class `DATETIME`. -/
  | DATETIME
  /-- The generic `DateTime`, which is not an instance of `DATETIME`. -/
  | dateTime
  | string
  | int64
  | date32
  | json
  | nullable (type : SqlType)
  deriving DecidableEq, Repr

namespace SqlType

/-- `isinstance(sql_type, Nullable)`. -/
def isNullable : SqlType → Bool
  | nullable _ => true
  | _ => false

/-- `isinstance(sql_type, (TIMESTAMP, TIME, DATETIME, Date32))`. -/
def isDateOrTime : SqlType → Bool
  | timestamp => true
  | time => true
  | DATETIME => true
  | date32 => true
  | _ => false

/-- A column of the type can hold the value.  Integers are not bounded here: a server wraps those that
are too large for a column, which for the columns of SQLAlchemy's `Integer` is beyond 32 bits. -/
def stores : SqlType → Value → Bool
  | nullable _, .none => true
  | nullable t, v => t.stores v
  | varchar, .str _ => true
  | string, .str _ => true
  | json, .dict _ => true
  | bigint, .int _ => true
  | integer, .int _ => true
  | int64, .int _ => true
  | boolean, .bool _ => true
  | float, .int _ => true
  | float, .num _ => true
  | decimal _ _, .int _ => true
  | decimal _ _, .num _ => true
  | date, .date _ => true
  | date32, .date _ => true
  | DATETIME, .datetime _ => true
  | dateTime, .datetime _ => true
  | timestamp, .datetime _ => true
  | _, _ => false

/-- Only a `Nullable` column holds `NULL`. -/
theorem stores_none {t : SqlType} : t.stores .none = t.isNullable := by
  cases t <;> rfl

end SqlType

/-! ## From JSON schema to SQL types -/

/-- What a `JSONSchemaToSQL` has registered: types by format and by type name. -/
structure Handlers where
  formats : List (String × SqlType)
  types : List (TypeName × SqlType)

/-- The SDK's part of the mapping: its own handlers, and the dispatch of a property to a handler,
which raises on schemas that are not dictionaries. -/
structure SqlDispatch where
  base : Handlers
  dispatch : Handlers → Schema → Except Exn SqlType

/-- `jsonschema_to_sql`. -/
def Config.jsonschemaToSql (c : Config) (base : Handlers) : Handlers where
  formats := Dict.set (Dict.set base.formats "date" .date32) "time" .string
  types :=
    let types := Dict.set (Dict.set base.types .integer .int64) .number .float
    if c.enableJson.getD false then Dict.set types .object .json else types

/-- `isinstance(schema_type, list) and "null" in schema_type`, for the property's own `type`. -/
def Schema.listsNull : Schema → Bool
  | .dict (some (.many names)) _ _ _ _ _ => names.contains .null
  | _ => false

/-- `to_sql_type`. -/
def toSqlType (c : Config) (sdk : SqlDispatch) (property : Schema) (isPrimaryKey : Bool) :
    Except Exn SqlType := do
  let sqlType ← sdk.dispatch (c.jsonschemaToSql sdk.base) property
  let sqlType := if sqlType.isDateOrTime && !isPrimaryKey then .nullable sqlType else sqlType
  return if property.listsNull && !isPrimaryKey && !sqlType.isNullable then .nullable sqlType
    else sqlType

/-- A primary key has the type that the SDK gives it. -/
theorem toSqlType_primaryKey (c : Config) (sdk : SqlDispatch) (property : Schema) :
    toSqlType c sdk property true = sdk.dispatch (c.jsonschemaToSql sdk.base) property := by
  rcases h : sdk.dispatch (c.jsonschemaToSql sdk.base) property with e | t <;>
    simp [toSqlType, h, bind, Except.bind, pure, Except.pure]

/-- What `to_sql_type` makes of the SDK's type of a column that is no primary key. -/
def SqlType.wrapped (property : Schema) (t : SqlType) : SqlType :=
  if !t.isNullable && (t.isDateOrTime || property.listsNull) then .nullable t else t

/-- Another column is made `Nullable` for its type or for its schema. -/
theorem toSqlType_of_dispatch {c : Config} {sdk : SqlDispatch} {property : Schema} {t : SqlType}
    (h : sdk.dispatch (c.jsonschemaToSql sdk.base) property = .ok t) :
    toSqlType c sdk property false = .ok (t.wrapped property) := by
  unfold toSqlType SqlType.wrapped
  rw [h]
  refine congrArg Except.ok ?_
  cases hn : property.listsNull with
  | false => cases t <;> rfl
  | true => cases t <;> rfl

theorem toSqlType_of_dispatch_error {c : Config} {sdk : SqlDispatch} {property : Schema} {e : Exn}
    (h : sdk.dispatch (c.jsonschemaToSql sdk.base) property = .error e) (isPrimaryKey : Bool) :
    toSqlType c sdk property isPrimaryKey = .error e := by
  rw [toSqlType, h]
  rfl

namespace SqlType

/-- The column holds `NULL` for a date-like type, or when the schema lists null. -/
theorem isNullable_wrapped (property : Schema) (t : SqlType) :
    (t.wrapped property).isNullable = (t.isNullable || t.isDateOrTime || property.listsNull) := by
  unfold wrapped
  cases hn : property.listsNull with
  | false => cases t <;> rfl
  | true => cases t <;> rfl

/-- Wrapping changes nothing for the other values. -/
theorem stores_wrapped {v : Value} (hv : v ≠ .none) (property : Schema) (t : SqlType) :
    (t.wrapped property).stores v = t.stores v := by
  unfold wrapped
  split_ifs
  · cases v with
    | none => exact absurd rfl hv
    | _ => rfl
  · rfl

end SqlType

/-! ## An SDK -/

/-- The type that the handlers give a schema by itself. -/
def Handlers.typeOf (h : Handlers) : Schema → Option SqlType
  | .dict (some type) format _ _ _ _ =>
      ((format.filter fun _ => .string ∈ type.names).bind fun f => h.formats.lookup f).or
        (type.names.findSome? fun name => h.types.lookup name)
  | _ => none

/-- A sample dispatch: formats come before types, the property's own type before its branches, and
`VARCHAR` last.  The SDK's own differs from it, for instance in the order in which it tries the types
of a list, and in formats that are not registered here. -/
def SqlDispatch.formatsFirst : SqlDispatch where
  base :=
    { formats := [("date-time", .DATETIME), ("date", .date), ("time", .time)]
      types := [(.string, .varchar), (.integer, .bigint), (.number, .decimal 38 10),
        (.boolean, .boolean), (.object, .varchar), (.array, .varchar)] }
  dispatch h
    | .bool _ => .error .typeError
    | p@(.dict _ _ _ _ anyOf _) =>
        .ok (((h.typeOf p).or ((anyOf.getD []).findSome? h.typeOf)).getD .varchar)

end TargetClickhouse
