import TargetClickhouse.Connector

/-!
# Tables with rows

A table of a stream with its rows.  A column that is not `Nullable` never holds `NULL`, and the two
columns that `activate_version` reads have integers and datetimes.  Adding a column fills the rows
that are there.
-/

namespace TargetClickhouse

/-- `version_column_name`. -/
def versionColumn : String := "_sdc_table_version"

/-- `soft_delete_column_name`. -/
def softDeleteColumn : String := "_sdc_deleted_at"

/-- The beginning of the Unix time. -/
def DateTime.epoch : DateTime := ⟨⟨1970, 1, 1⟩, ⟨0, 0, 0, 0⟩, none⟩

namespace SqlType

/-- The value with which `ADD COLUMN` fills the rows of a table: `NULL` for a `Nullable` type, and
the default of the type otherwise. -/
def fill : SqlType → Value
  | nullable _ => .none
  | varchar => .str ""
  | string => .str ""
  | bigint => .int 0
  | integer => .int 0
  | int64 => .int 0
  | boolean => .bool false
  | decimal _ _ => .num "0"
  | float => .num "0"
  | date => .date DateTime.epoch.date
  | date32 => .date DateTime.epoch.date
  | time => .str "00:00:00"
  | timestamp => .datetime .epoch
  | DATETIME => .datetime .epoch
  | dateTime => .datetime .epoch
  | json => .dict []

def isInteger : SqlType → Bool
  | nullable t => t.isInteger
  | bigint => true
  | integer => true
  | int64 => true
  | _ => false

def isDatetime : SqlType → Bool
  | nullable t => t.isDatetime
  | timestamp => true
  | DATETIME => true
  | dateTime => true
  | _ => false

/-- The type suits a column of the name. -/
def suits (column : String) (t : SqlType) : Bool :=
  (column ≠ versionColumn || t.isInteger) && (column ≠ softDeleteColumn || t.isDatetime)

theorem stores_datetime {t : SqlType} (h : t.isDatetime = true) (now : DateTime) :
    t.stores (.datetime now) = true := by
  induction t with
  | nullable t ih => exact ih h
  | timestamp => rfl
  | DATETIME => rfl
  | dateTime => rfl
  | _ => cases h

theorem fill_of_isDatetime {t : SqlType} (h : t.isDatetime = true) (hn : t.isNullable = false) :
    t.fill = .datetime .epoch := by
  cases t with
  | nullable t => cases hn
  | timestamp => rfl
  | DATETIME => rfl
  | dateTime => rfl
  | _ => cases h

end SqlType

/-- The row has one cell for every column, in order, and the column's type stores it. -/
def rowFits : List (String × SqlType) → Record → Bool
  | [], [] => true
  | (column, t) :: columns, (key, v) :: row =>
      key = column && t.stores v && rowFits columns row
  | _, _ => false

section

variable {columns : List (String × SqlType)} {row : Record} {column : String} {t : SqlType}
  {v : Value}

theorem keys_of_rowFits (h : rowFits columns row = true) : Dict.keys row = Dict.keys columns := by
  induction columns generalizing row with
  | nil =>
    cases row with
    | nil => rfl
    | cons kv row => cases h
  | cons c columns ih =>
    cases row with
    | nil => cases h
    | cons kv row =>
      obtain ⟨column, t⟩ := c
      obtain ⟨key, v⟩ := kv
      simp only [rowFits, Bool.and_eq_true, decide_eq_true_eq] at h
      obtain ⟨⟨rfl, -⟩, hrow⟩ := h
      exact congrArg (key :: ·) (ih hrow)

theorem lookup_of_rowFits (h : rowFits columns row = true) (hc : columns.lookup column = some t) :
    ∃ v, row.lookup column = some v ∧ t.stores v = true := by
  induction columns generalizing row with
  | nil => cases hc
  | cons c columns ih =>
    cases row with
    | nil => cases h
    | cons kv row =>
      obtain ⟨name, t'⟩ := c
      obtain ⟨key, v⟩ := kv
      simp only [rowFits, Bool.and_eq_true, decide_eq_true_eq] at h
      obtain ⟨⟨rfl, hstores⟩, hrow⟩ := h
      rw [Dict.lookup_cons] at hc ⊢
      split_ifs at hc ⊢ with hk
      · obtain rfl := Option.some.inj hc
        exact ⟨v, rfl, hstores⟩
      · exact ih hrow hc

theorem rowFits_append (h : rowFits columns row = true) (hv : t.stores v = true) :
    rowFits (columns ++ [(column, t)]) (row ++ [(column, v)]) = true := by
  induction columns generalizing row with
  | nil =>
    cases row with
    | nil => simp [rowFits, hv]
    | cons kv row => cases h
  | cons c columns ih =>
    cases row with
    | nil => cases h
    | cons kv row =>
      simp only [rowFits, Bool.and_eq_true, List.cons_append] at h ⊢
      exact ⟨h.1, ih h.2⟩

/-- Assigning to a column what its type stores. -/
theorem rowFits_set (h : rowFits columns row = true)
    (hv : ∀ t, (column, t) ∈ columns → t.stores v = true)
    (hc : column ∈ Dict.keys columns) : rowFits columns (Dict.set row column v) = true := by
  induction columns generalizing row with
  | nil => cases hc
  | cons c columns ih =>
    cases row with
    | nil => cases h
    | cons kv row =>
      obtain ⟨name, t'⟩ := c
      obtain ⟨key, w⟩ := kv
      simp only [rowFits, Bool.and_eq_true, decide_eq_true_eq] at h
      obtain ⟨⟨rfl, hstores⟩, hrow⟩ := h
      by_cases hk : key = column
      · subst hk
        simp [Dict.set, rowFits, hv t' List.mem_cons_self, hrow]
      · have hc' : column ∈ Dict.keys columns := by
          rcases List.mem_cons.1 hc with rfl | hmem
          · exact absurd rfl hk
          · exact hmem
        simp only [Dict.set, if_neg hk, rowFits, Bool.and_eq_true, decide_true, true_and]
        exact ⟨hstores, ih hrow (fun t ht => hv t (List.mem_cons_of_mem _ ht)) hc'⟩

end

/-- A table with its rows. -/
structure Table where
  definition : TableDef
  rows : List Record
  nodup : (Dict.keys definition.columns).Nodup
  suits : ∀ c ∈ definition.columns, SqlType.suits c.1 c.2 = true
  fits : ∀ row ∈ rows, rowFits definition.columns row = true

namespace Table

variable (t : Table)

/-- The table with other rows that fit. -/
def withRows (rows : List Record) (h : ∀ row ∈ rows, rowFits t.definition.columns row = true) :
    Table :=
  { t with rows := rows, fits := h }

/-- A row of the table, when the table is to have the column. -/
def filled (column : String) (type : SqlType) (row : Record) : Record :=
  if column ∈ Dict.keys t.definition.columns then row else row ++ [(column, type.fill)]

/-- The table after `prepare_column` for a column, when it is missing. -/
def ensureColumn (column : String) (type : SqlType) (hsuits : type.suits column = true)
    (hfill : type.stores type.fill = true) : Table :=
  if hc : column ∈ Dict.keys t.definition.columns then t
  else
    { definition := { t.definition with columns := t.definition.columns ++ [(column, type)] }
      rows := t.rows.map fun row => row ++ [(column, type.fill)]
      nodup := by
        have hkeys : Dict.keys (t.definition.columns ++ [(column, type)]) =
            Dict.keys t.definition.columns ++ [column] := by simp [Dict.keys]
        rw [hkeys, List.nodup_append]
        refine ⟨t.nodup, List.nodup_singleton _, fun a ha b hb => ?_⟩
        obtain rfl := List.mem_singleton.1 hb
        exact fun he => hc (he ▸ ha)
      suits := by
        intro c hmem
        rcases List.mem_append.1 hmem with hold | hnew
        · exact t.suits c hold
        · obtain rfl := List.mem_singleton.1 hnew
          exact hsuits
      fits := by
        intro row' hrow'
        obtain ⟨row, hrow, rfl⟩ := List.mem_map.1 hrow'
        exact rowFits_append (t.fits row hrow) hfill }

variable {t} {column : String} {type : SqlType} {hsuits : type.suits column = true}
  {hfill : type.stores type.fill = true}

theorem ensureColumn_of_mem (hc : column ∈ Dict.keys t.definition.columns) :
    t.ensureColumn column type hsuits hfill = t := by
  rw [ensureColumn, dif_pos hc]

theorem columns_ensureColumn (hc : column ∉ Dict.keys t.definition.columns) :
    (t.ensureColumn column type hsuits hfill).definition.columns =
      t.definition.columns ++ [(column, type)] := by
  rw [ensureColumn, dif_neg hc]

theorem rows_ensureColumn :
    (t.ensureColumn column type hsuits hfill).rows = t.rows.map (t.filled column type) := by
  by_cases hc : column ∈ Dict.keys t.definition.columns
  · rw [ensureColumn_of_mem hc]
    refine (List.map_id'' (fun row => ?_) t.rows).symm
    rw [filled, if_pos hc]
  · rw [ensureColumn, dif_neg hc]
    refine List.map_congr_left fun row _ => ?_
    rw [filled, if_neg hc]

/-- The row gets the column, or keeps it. -/
theorem lookup_filled {row : Record} (hrow : row ∈ t.rows) :
    (t.filled column type row).lookup column = some ((row.lookup column).getD type.fill) := by
  have hkeys := keys_of_rowFits (t.fits row hrow)
  unfold filled
  by_cases hc : column ∈ Dict.keys t.definition.columns
  · rw [if_pos hc]
    rw [← hkeys, ← Dict.lookup_isSome_iff] at hc
    obtain ⟨v, hv⟩ := Option.isSome_iff_exists.1 hc
    rw [hv]
    rfl
  · have hnone : row.lookup column = none := Dict.lookup_eq_none (by rwa [hkeys])
    rw [if_neg hc, List.lookup_append, hnone, Dict.lookup_cons, if_pos rfl]
    rfl

theorem lookup_filled_of_ne {name : String} (hne : name ≠ column) (row : Record) :
    (t.filled column type row).lookup name = row.lookup name := by
  unfold filled
  split_ifs
  · rfl
  · rw [List.lookup_append, Dict.lookup_cons, if_neg hne]
    simp

theorem mem_keys_ensureColumn :
    column ∈ Dict.keys (t.ensureColumn column type hsuits hfill).definition.columns := by
  by_cases hc : column ∈ Dict.keys t.definition.columns
  · rwa [ensureColumn_of_mem hc]
  · rw [columns_ensureColumn hc]
    simp [Dict.keys]

/-- Other columns keep their types. -/
theorem lookup_ensureColumn_of_ne {name : String} (hne : name ≠ column) :
    (t.ensureColumn column type hsuits hfill).definition.columns.lookup name =
      t.definition.columns.lookup name := by
  by_cases hc : column ∈ Dict.keys t.definition.columns
  · rw [ensureColumn_of_mem hc]
  · rw [columns_ensureColumn hc, List.lookup_append, Dict.lookup_cons, if_neg hne]
    simp

/-- The statement that adds the column has this effect on the definition. -/
theorem apply_getColumnAddDdl (tableName : String)
    (hc : column ∉ Dict.keys t.definition.columns) :
    (Connector.getColumnAddDdl tableName column type).apply (some t.definition) =
      some (t.ensureColumn column type hsuits hfill).definition := by
  rw [Connector.getColumnAddDdl, Ddl.apply, if_neg hc, ensureColumn, dif_neg hc]

end Table

end TargetClickhouse
