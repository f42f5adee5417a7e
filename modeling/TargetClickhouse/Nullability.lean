import TargetClickhouse.Connector

/-!
# Nullable columns

`to_sql_type` makes a column `Nullable` for its type or for its schema, unless it is a primary key.
`nullabilityFits_iff` compares this with the ways in which a schema declares null, and
`sortingKeyNotNull_iff` says for which tables no column of the sorting key is `Nullable`.
-/

namespace TargetClickhouse

open Dict

namespace Schema

mutual

/-- The schema declares null: as its type, in its list of types, or in a branch of `anyOf` or
`oneOf`. -/
def declaresNull : Schema → Bool
  | .bool _ => false
  | .dict type _ _ _ anyOf oneOf =>
      type.any (fun t => t.names.contains .null) || branchDeclaresNull anyOf ||
        branchDeclaresNull oneOf

def branchDeclaresNull : Option (List Schema) → Bool
  | none => false
  | some ss => someDeclaresNull ss

def someDeclaresNull : List Schema → Bool
  | [] => false
  | s :: ss => s.declaresNull || someDeclaresNull ss

end

theorem declaresNull_of_listsNull {s : Schema} (h : s.listsNull = true) :
    s.declaresNull = true := by
  cases s with
  | bool b => cases h
  | dict type format properties items anyOf oneOf =>
    cases type with
    | none => cases h
    | some t =>
      cases t with
      | one name => cases h
      | many names =>
        rw [declaresNull, Bool.or_assoc, Bool.or_eq_true]
        exact Or.inl h

end Schema

namespace SqlType

/-- The date and time types. -/
def isTemporal : SqlType → Bool
  | date => true
  | time => true
  | timestamp => true
  | DATETIME => true
  | dateTime => true
  | date32 => true
  | _ => false

theorem isTemporal_of_isDateOrTime {t : SqlType} (h : t.isDateOrTime = true) :
    t.isTemporal = true := by
  cases t <;> first | rfl | cases h

end SqlType

/-- The SDK's mapping of properties gives no `Nullable` type by itself. -/
def SqlDispatch.NeverNullable (sdk : SqlDispatch) (c : Config) : Prop :=
  ∀ property t, sdk.dispatch (c.jsonschemaToSql sdk.base) property = .ok t → t.isNullable = false

/-! ## Columns -/

/-- The type of the column holds null exactly when the schema declares null or the type is a date or
time type, and the column is no primary key. -/
structure NullabilityFits (property : Schema) (isPrimaryKey : Bool) (mapped t : SqlType) :
    Prop where
  isNullable_iff : t.isNullable = true ↔
    isPrimaryKey = false ∧ (property.declaresNull = true ∨ mapped.isTemporal = true)
  not_of_primaryKey : isPrimaryKey = true → t.isNullable = false
  not_nested : ∀ inner, t = .nullable inner → inner.isNullable = false

section

variable {c : Config} {sdk : SqlDispatch} {property : Schema} {isPrimaryKey : Bool}
  {mapped t : SqlType}

theorem SqlType.wrapped_eq_nullable {inner : SqlType} (hn : mapped.isNullable = false)
    (h : mapped.wrapped property = .nullable inner) : inner = mapped := by
  unfold wrapped at h
  split_ifs at h
  · exact (SqlType.nullable.inj h).symm
  · rw [h] at hn
    cases hn

/-- A column is made `Nullable` for the date-like types that the code tests for, or for its own list
of types. -/
theorem isNullable_toSqlType
    (hmapped : sdk.dispatch (c.jsonschemaToSql sdk.base) property = .ok mapped)
    (hn : mapped.isNullable = false) (ht : toSqlType c sdk property isPrimaryKey = .ok t) :
    t.isNullable = (!isPrimaryKey && (mapped.isDateOrTime || property.listsNull)) := by
  cases isPrimaryKey with
  | true =>
    rw [toSqlType_primaryKey, hmapped] at ht
    obtain rfl := Except.ok.inj ht
    exact hn
  | false =>
    rw [toSqlType_of_dispatch hmapped] at ht
    obtain rfl := Except.ok.inj ht
    rw [SqlType.isNullable_wrapped, hn]
    rfl

theorem dispatch_of_toSqlType (ht : toSqlType c sdk property isPrimaryKey = .ok t) :
    ∃ mapped, sdk.dispatch (c.jsonschemaToSql sdk.base) property = .ok mapped := by
  obtain ⟨mapped, hmapped, -⟩ := bind_eq_ok_iff.1 ht
  exact ⟨mapped, hmapped⟩

theorem not_nested_toSqlType
    (hmapped : sdk.dispatch (c.jsonschemaToSql sdk.base) property = .ok mapped)
    (hn : mapped.isNullable = false) (ht : toSqlType c sdk property isPrimaryKey = .ok t)
    {inner : SqlType} (h : t = .nullable inner) : inner.isNullable = false := by
  cases isPrimaryKey with
  | true =>
    rw [toSqlType_primaryKey, hmapped] at ht
    obtain rfl := Except.ok.inj ht
    rw [h] at hn
    cases hn
  | false =>
    rw [toSqlType_of_dispatch hmapped, Except.ok.injEq] at ht
    rw [SqlType.wrapped_eq_nullable hn (ht.trans h)]
    exact hn

/-- `to_sql_type` overlooks null in a single type name and in the branches of `anyOf` and `oneOf`,
and two date types that the SDK could map to. -/
theorem nullabilityFits_iff (hsdk : sdk.NeverNullable c)
    (hmapped : sdk.dispatch (c.jsonschemaToSql sdk.base) property = .ok mapped)
    (ht : toSqlType c sdk property isPrimaryKey = .ok t) :
    NullabilityFits property isPrimaryKey mapped t ↔
      isPrimaryKey = true ∨ property.listsNull = true ∨ mapped.isDateOrTime = true ∨
        property.declaresNull = false ∧ mapped.isTemporal = false := by
  have hn := hsdk property mapped hmapped
  have hnull := isNullable_toSqlType hmapped hn ht
  constructor
  · intro hfits
    have hiff := hfits.isNullable_iff
    rw [hnull] at hiff
    cases isPrimaryKey with
    | true => exact Or.inl rfl
    | false =>
      refine Or.inr ?_
      by_cases hlists : property.listsNull = true
      · exact Or.inl hlists
      · by_cases hdate : mapped.isDateOrTime = true
        · exact Or.inr (Or.inl hdate)
        · -- the column is not nullable, so the schema declares no null and the type is no date
          refine Or.inr (Or.inr ?_)
          simp only [hlists, hdate] at hiff
          simpa using hiff
  · intro hcond
    refine ⟨?_, ?_, fun inner => not_nested_toSqlType hmapped hn ht⟩
    · rw [hnull]
      cases isPrimaryKey with
      | true => simp
      | false =>
        rcases hcond with hkey | hlists | hdate | ⟨hdeclares, htemporal⟩
        · cases hkey
        · simp [hlists, Schema.declaresNull_of_listsNull hlists]
        · simp [hdate, SqlType.isTemporal_of_isDateOrTime hdate]
        · have hlists : property.listsNull = false :=
            Bool.eq_false_iff.2 fun h => by simp [Schema.declaresNull_of_listsNull h] at hdeclares
          have hdate : mapped.isDateOrTime = false :=
            Bool.eq_false_iff.2 fun h => by simp [SqlType.isTemporal_of_isDateOrTime h] at htemporal
          simp [hlists, hdate, hdeclares, htemporal]
    · rintro rfl
      rw [hnull]
      rfl

end

/-- The handlers give no `Nullable` type. -/
theorem Handlers.isNullable_typeOf {h : Handlers} {p : Schema} {t : SqlType}
    (hformats : ∀ kv ∈ h.formats, kv.2.isNullable = false)
    (htypes : ∀ kv ∈ h.types, kv.2.isNullable = false) (ht : h.typeOf p = some t) :
    t.isNullable = false := by
  unfold typeOf at ht
  split at ht
  · rcases Option.or_eq_some_iff.1 ht with hformat | ⟨-, htype⟩
    · obtain ⟨f, -, hlookup⟩ := Option.bind_eq_some_iff.1 hformat
      exact hformats _ (mem_of_lookup hlookup)
    · obtain ⟨name, -, hlookup⟩ := List.exists_of_findSome?_eq_some htype
      exact htypes _ (mem_of_lookup hlookup)
  · cases ht

theorem SqlDispatch.neverNullable_formatsFirst (c : Config) : formatsFirst.NeverNullable c := by
  intro property t ht
  have hformats : ∀ kv ∈ (c.jsonschemaToSql formatsFirst.base).formats,
      kv.2.isNullable = false := by
    show ∀ kv ∈ Dict.set (Dict.set formatsFirst.base.formats "date" .date32) "time" .string,
      kv.2.isNullable = false
    decide
  have htypes : ∀ kv ∈ (c.jsonschemaToSql formatsFirst.base).types, kv.2.isNullable = false := by
    unfold Config.jsonschemaToSql
    cases c.enableJson.getD false <;> decide
  cases property with
  | bool b => cases ht
  | dict type format properties items anyOf oneOf =>
    obtain rfl := Except.ok.inj ht
    cases hor : Option.or _ _ with
    | none => rfl
    | some t =>
      rcases Option.or_eq_some_iff.1 hor with hown | ⟨-, hbranch⟩
      · exact Handlers.isNullable_typeOf hformats htypes hown
      · obtain ⟨branch, -, hbranch⟩ := List.exists_of_findSome?_eq_some hbranch
        exact Handlers.isNullable_typeOf hformats htypes hbranch

/-- A list of types with null. -/
theorem nullabilityFits_listed :
    NullabilityFits (.typed (.many [.null, .integer]) none) false .int64 (.nullable .int64) :=
  (nullabilityFits_iff (SqlDispatch.neverNullable_formatsFirst {}) rfl rfl).2 (Or.inr (Or.inl rfl))

/-- An `anyOf` of integer and null gives a column that does not hold null. -/
theorem not_nullabilityFits_anyOf :
    let property := Schema.any [.typed (.one .integer) none, .typed (.one .null) none]
    toSqlType {} .formatsFirst property false = .ok .int64 ∧
      ¬ NullabilityFits property false .int64 .int64 := by
  refine ⟨rfl, fun hfits => ?_⟩
  have hnull := hfits.isNullable_iff.2 ⟨rfl, Or.inl rfl⟩
  cases hnull

/-! ## Sorting keys -/

namespace Connector

variable {conn : Connector} {fullTableName : TableName} {schema : Schema}
  {primaryKeys : Option (List String)} {asTempTable : Bool} {address : Address}
  {definition : TableDef} {onCluster : Option String}

/-- Every column of the table's sorting key has a type that does not hold null. -/
def SortingKeyNotNull (definition : TableDef) : Prop :=
  ∀ name ∈ definition.engine.sortingKey, ∀ t, (name, t) ∈ definition.columns →
    t.isNullable = false

/-- The columns of a table that `create_empty_table` creates, property by property. -/
theorem columns_of_createEmptyTable {properties : List (String × Schema)}
    (hproperties : schema.properties = .ok properties)
    (h : conn.createEmptyTable fullTableName schema primaryKeys asTempTable =
      .ok (.createTable address definition onCluster)) :
    definition.engine.sortingKey = conn.config.orderByKeys.getD (primaryKeys.getD []) ∧
      List.Forall₂ (fun p column => column.1 = p.1 ∧
        toSqlType conn.config conn.dispatch p.2 ((primaryKeys.getD []).contains p.1) =
          .ok column.2) properties definition.columns := by
  obtain ⟨-, address', properties', columns, engine, -, hproperties', hcolumns, hengine, hddl⟩ :=
    createEmptyTable_eq_ok h
  obtain ⟨rfl, rfl, rfl⟩ := Ddl.createTable.inj hddl
  obtain rfl := Except.ok.inj (hproperties.symm.trans hproperties')
  exact ⟨(Engine.sortingKey_of_createEngineWrapper hengine).2, forall₂_newColumns hcolumns⟩

/-- A column of the sorting key is `Nullable` exactly when `order_by_keys` has a column that is no
primary key, for a property with a date-like type or a list of types with null. -/
theorem sortingKeyNotNull_iff (hsdk : conn.dispatch.NeverNullable conn.config)
    {properties : List (String × Schema)} (hproperties : schema.properties = .ok properties)
    (h : conn.createEmptyTable fullTableName schema primaryKeys asTempTable =
      .ok (.createTable address definition onCluster)) :
    SortingKeyNotNull definition ↔
      ∀ names, conn.config.orderByKeys = some names → ∀ name ∈ names, name ∉ primaryKeys.getD [] →
        ∀ property, (name, property) ∈ properties → property.listsNull = false ∧
          ∀ mapped, conn.dispatch.dispatch (conn.config.jsonschemaToSql conn.dispatch.base)
            property = .ok mapped → mapped.isDateOrTime = false := by
  obtain ⟨hsorting, hcolumns⟩ := columns_of_createEmptyTable hproperties h
  unfold SortingKeyNotNull
  rw [hsorting]
  constructor
  · intro hnotnull names hnames name hname hkey property hproperty
    rw [hnames] at hnotnull
    obtain ⟨⟨name', t⟩, hcolumn, hname', ht⟩ := exists_of_mem_left hcolumns hproperty
    obtain rfl : name' = name := hname'
    obtain ⟨mapped, hmapped⟩ := dispatch_of_toSqlType ht
    have hnull := hnotnull name' hname t hcolumn
    have hcontains : (primaryKeys.getD []).contains name' = false :=
      Bool.eq_false_iff.2 fun h => hkey (List.contains_iff_mem.1 h)
    rw [isNullable_toSqlType hmapped (hsdk _ _ hmapped) ht, hcontains] at hnull
    obtain ⟨hdate, hlists⟩ := Bool.or_eq_false_iff.1 hnull
    refine ⟨hlists, fun mapped' hmapped' => ?_⟩
    obtain rfl := Except.ok.inj (hmapped.symm.trans hmapped')
    exact hdate
  · intro hcond name hname t hcolumn
    obtain ⟨⟨name', property⟩, hproperty, hname', ht⟩ := exists_of_mem_right hcolumns hcolumn
    obtain rfl : name = name' := hname'
    obtain ⟨mapped, hmapped⟩ := dispatch_of_toSqlType ht
    rw [isNullable_toSqlType hmapped (hsdk _ _ hmapped) ht]
    by_cases hkey : name ∈ primaryKeys.getD []
    · rw [List.contains_iff_mem.2 hkey]
      rfl
    · cases horder : conn.config.orderByKeys with
      | none =>
        rw [horder] at hname
        exact absurd hname hkey
      | some names =>
        rw [horder] at hname
        obtain ⟨hlists, hdate⟩ := hcond names horder name hname hkey property hproperty
        rw [hlists, hdate mapped hmapped, Bool.or_false, Bool.and_false]

/-- A table that is sorted by its primary key and a kind. -/
theorem sortingKeyNotNull_kind :
    SortingKeyNotNull ⟨[("id", .int64), ("kind", .varchar)],
      ⟨.mergeTree, some ["id"], some (.keys ["id", "kind"]), none, none⟩⟩ := by
  have hcreated : (retyping { orderByKeys := some ["id", "kind"] }).createEmptyTable
      (.text "events")
      (.object [("id", .typed (.one .integer) none), ("kind", .typed (.one .string) none)])
      (some ["id"]) false =
        .ok (.createTable ⟨"default", "events"⟩ ⟨[("id", .int64), ("kind", .varchar)],
          ⟨.mergeTree, some ["id"], some (.keys ["id", "kind"]), none, none⟩⟩ none) := by decide
  refine (sortingKeyNotNull_iff (SqlDispatch.neverNullable_formatsFirst _) rfl hcreated).2 ?_
  rintro names ⟨⟩ name hname hkey property hproperty
  rcases List.mem_pair.1 hproperty with he | he
  · obtain ⟨rfl, -⟩ := Prod.mk.inj he
    exact absurd (List.mem_singleton_self _) hkey
  · obtain ⟨-, rfl⟩ := Prod.mk.inj he
    refine ⟨rfl, fun mapped hmapped => ?_⟩
    obtain rfl := Except.ok.inj hmapped
    rfl

/-- A table that is sorted by its primary key and a timestamp. -/
theorem not_sortingKeyNotNull_timestamp :
    let definition : TableDef := ⟨[("id", .int64), ("at", .nullable .DATETIME)],
      ⟨.mergeTree, some ["id"], some (.keys ["id", "at"]), none, none⟩⟩
    (retyping { orderByKeys := some ["id", "at"] }).createEmptyTable (.text "events")
        (.object [("id", .typed (.one .integer) none),
          ("at", .typed (.one .string) (some "date-time"))]) (some ["id"]) false =
        .ok (.createTable ⟨"default", "events"⟩ definition none) ∧
      ¬ SortingKeyNotNull definition := by
  refine ⟨by decide, fun hnotnull => ?_⟩
  have hnull := hnotnull "at" (by decide) (.nullable .DATETIME) (by decide)
  cases hnull

end Connector

end TargetClickhouse
