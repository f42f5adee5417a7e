import TargetClickhouse.Tables
import TargetClickhouse.Lib.Runs
import TargetClickhouse.Lib.Sql

/-!
# Versions of a stream

`activate_version` removes the rows of older versions, by deleting them or by giving them a deletion
timestamp.  `activatesFrom_iff` says when the rows that stay alive are those of the activated
version and of later ones, and `marksThroughout_iff` says in which runs of activations and loads
every older row gets its timestamp.
-/

namespace TargetClickhouse

/-- A value, unless it is `NULL`. -/
def Value.nonNull : Value → Option Value
  | .none => .none
  | v => some v

theorem Value.nonNull_of_ne {v : Value} (h : v ≠ .none) : v.nonNull = some v := by
  cases v with
  | none => exact absurd rfl h
  | _ => rfl

def Value.toInt : Value → Option ℤ
  | .int n => some n
  | _ => .none

/-- The version of a row.  A row without the column has the version that `ADD COLUMN` gives it. -/
def version (row : Record) : Option ℤ :=
  ((row.lookup versionColumn).getD SqlType.integer.fill).toInt

/-- The deletion timestamp of a row. -/
def marker (row : Record) : Option Value := (row.lookup softDeleteColumn).bind Value.nonNull

def setMarker (deletedAt : DateTime) (row : Record) : Record :=
  Dict.set row softDeleteColumn (.datetime deletedAt)

/-- `_sdc_table_version <= new_version`. -/
def upToVersion (newVersion : ℤ) (row : Record) : Sql.Truth :=
  Sql.le (version row) (some newVersion)

/-- `_sdc_table_version < new_version AND _sdc_deleted_at IS NULL`. -/
def olderUnmarked (newVersion : ℤ) (row : Record) : Sql.Truth :=
  Sql.and (Sql.lt (version row) (some newVersion)) (Sql.isNull (marker row))

namespace Table

/-- `ALTER TABLE … DELETE`. -/
def deleteVersions (newVersion : ℤ) (t : Table) : Table :=
  t.withRows (Sql.deleteWhere (upToVersion newVersion) t.rows) fun row hrow =>
    t.fits row (List.mem_of_mem_filter hrow)

theorem isDatetime_of_mem {t : Table} {type : SqlType}
    (h : (softDeleteColumn, type) ∈ t.definition.columns) : type.isDatetime = true := by
  have hsuits := t.suits _ h
  simp only [SqlType.suits, Bool.and_eq_true, Bool.or_eq_true] at hsuits
  exact hsuits.2.resolve_left (by simp)

theorem rowFits_setMarker {t : Table} (hc : softDeleteColumn ∈ Dict.keys t.definition.columns)
    (deletedAt : DateTime) {row : Record} (hrow : row ∈ t.rows) :
    rowFits t.definition.columns (setMarker deletedAt row) = true := by
  refine rowFits_set (t.fits row hrow) (fun type htype => ?_) hc
  exact SqlType.stores_datetime (isDatetime_of_mem htype) deletedAt

/-- `ALTER TABLE … UPDATE`. -/
def markVersions (newVersion : ℤ) (deletedAt : DateTime) (t : Table)
    (hc : softDeleteColumn ∈ Dict.keys t.definition.columns) : Table :=
  t.withRows (Sql.updateWhere (olderUnmarked newVersion) (setMarker deletedAt) t.rows) <| by
    intro row' hrow'
    obtain ⟨row, hrow, rfl⟩ := List.mem_map.1 hrow'
    split_ifs
    · exact rowFits_setMarker hc deletedAt hrow
    · exact t.fits row hrow

/-- The table with the version column. -/
def ensureVersion (t : Table) : Table :=
  t.ensureColumn versionColumn .integer (by decide) (by decide)

/-- The table with the soft-delete column. -/
def ensureMarker (t : Table) : Table :=
  t.ensureColumn softDeleteColumn .dateTime (by decide) (by decide)

/-- `activate_version` for a table that exists. -/
def activate (c : Config) (newVersion : ℤ) (deletedAt : DateTime) (t : Table) : Table :=
  let t := t.ensureVersion
  if c.usesHardDelete then t.deleteVersions newVersion
  else t.ensureMarker.markVersions newVersion deletedAt mem_keys_ensureColumn

/-- The rows that are present and not marked as deleted. -/
def liveRows (t : Table) : List Record := t.rows.filter fun row => (marker row).isNone

end Table

/-- `activate_version`; there is nothing to do for a table that does not exist yet. -/
def activateVersion (c : Config) (newVersion : ℤ) (deletedAt : DateTime) :
    Option Table → Option Table :=
  Option.map (Table.activate c newVersion deletedAt)

theorem marker_setMarker (deletedAt : DateTime) (row : Record) :
    marker (setMarker deletedAt row) = some (.datetime deletedAt) := by
  rw [marker, setMarker, Dict.lookup_set, if_pos rfl]
  rfl

theorem version_setMarker (deletedAt : DateTime) (row : Record) :
    version (setMarker deletedAt row) = version row := by
  rw [version, setMarker, Dict.lookup_set, if_neg (by decide)]
  rfl

/-! ## Live rows -/

namespace Table

variable {t : Table} {c : Config} {newVersion : ℤ} {deletedAt : DateTime}

/-- In every mode, the live rows after the activation are the live rows before it whose version is
not older than the activated one. -/
def ActivatesFrom (newVersion : ℤ) (t : Table) : Prop :=
  ∀ c deletedAt, (activateVersion c newVersion deletedAt (some t)).map liveRows =
    some (t.liveRows.filter fun row => (version row).any (newVersion ≤ ·))

theorem liveRows_deleteVersions :
    (t.deleteVersions newVersion).liveRows =
      t.liveRows.filter fun row => !Sql.holds (upToVersion newVersion row) := by
  rw [liveRows, liveRows, List.filter_filter]
  refine Sql.filter_deleteWhere.trans (List.filter_congr fun row _ => ?_)
  exact Bool.and_comm _ _

theorem liveRows_markVersions (hc : softDeleteColumn ∈ Dict.keys t.definition.columns) :
    (t.markVersions newVersion deletedAt hc).liveRows =
      t.liveRows.filter fun row => !Sql.holds (Sql.lt (version row) (some newVersion)) := by
  rw [liveRows, liveRows, List.filter_filter]
  refine (Sql.filter_updateWhere fun row _ => ?_).trans (List.filter_congr fun row _ => ?_)
  · rw [marker_setMarker]
    rfl
  · rw [olderUnmarked, Sql.holds_and, Sql.holds_isNull]
    cases (marker row).isNone with
    | false => simp
    | true => simp

theorem liveRows_activate (hversion : versionColumn ∈ Dict.keys t.definition.columns)
    (hmarker : softDeleteColumn ∈ Dict.keys t.definition.columns) :
    (t.activate c newVersion deletedAt).liveRows = t.liveRows.filter fun row =>
      if c.usesHardDelete then !Sql.holds (upToVersion newVersion row)
      else !Sql.holds (Sql.lt (version row) (some newVersion)) := by
  have hv : t.ensureVersion = t := ensureColumn_of_mem hversion
  have hm : t.ensureMarker = t := ensureColumn_of_mem hmarker
  unfold activate
  by_cases hard : c.usesHardDelete = true
  · simp only [hard, if_true, hv]
    exact liveRows_deleteVersions
  · simp only [hard, hv, hm]
    exact liveRows_markVersions hmarker

/-- The rows that the hard deletion spares have a newer version, unless a row has the activated
version or none. -/
theorem not_upToVersion_eq_iff (row : Record) :
    (!Sql.holds (upToVersion newVersion row)) = (version row).any (newVersion ≤ ·) ↔
      ∃ n, version row = some n ∧ n ≠ newVersion := by
  rw [Bool.eq_iff_iff, Bool.not_eq_true', Bool.eq_false_iff, upToVersion, ne_eq, Sql.holds_le_iff]
  cases version row with
  | none => simp
  | some n =>
    simp only [Option.any_some, decide_eq_true_eq, Option.some_inj, exists_eq_left']
    omega

theorem not_older_eq_of_version {row : Record} {n : ℤ} (hn : version row = some n) :
    (!Sql.holds (Sql.lt (version row) (some newVersion))) =
      (version row).any (newVersion ≤ ·) := by
  rw [Bool.eq_iff_iff, Bool.not_eq_true', Bool.eq_false_iff, ne_eq, Sql.holds_lt_iff, hn]
  simp only [Option.any_some, decide_eq_true_eq, Option.some_inj, exists_eq_left']
  omega

/-- The activation keeps the right rows in every mode exactly when no live row has the activated
version, and every live row has one. -/
theorem activatesFrom_iff (hversion : versionColumn ∈ Dict.keys t.definition.columns)
    (hmarker : softDeleteColumn ∈ Dict.keys t.definition.columns) :
    t.ActivatesFrom newVersion ↔
      ∀ row ∈ t.liveRows, ∃ n, version row = some n ∧ n ≠ newVersion := by
  have hmode : ∀ c deletedAt, (activateVersion c newVersion deletedAt (some t)).map liveRows =
      some (t.liveRows.filter fun row => (version row).any (newVersion ≤ ·)) ↔
        ∀ row ∈ t.liveRows,
          (if c.usesHardDelete then !Sql.holds (upToVersion newVersion row)
            else !Sql.holds (Sql.lt (version row) (some newVersion))) =
              (version row).any (newVersion ≤ ·) := by
    intro c deletedAt
    rw [activateVersion, Option.map_some, Option.map_some, Option.some_inj,
      liveRows_activate hversion hmarker]
    exact Sql.filter_eq_filter_iff
  constructor
  · -- a target that deletes
    intro h row hrow
    have hspared := (hmode { hardDelete := some true } .epoch).1 (h _ .epoch) row hrow
    exact (not_upToVersion_eq_iff row).1 hspared
  · intro h c deletedAt
    refine (hmode c deletedAt).2 fun row hrow => ?_
    obtain ⟨n, hn, hne⟩ := h row hrow
    split_ifs
    · exact (not_upToVersion_eq_iff row).2 ⟨n, hn, hne⟩
    · exact not_older_eq_of_version hn

/-- A table with the columns of a stream that loads its metadata. -/
def withMetadata (rows : List Record)
    (h : ∀ row ∈ rows, rowFits [("id", .int64), (versionColumn, .nullable .int64),
      (softDeleteColumn, .nullable .DATETIME)] row = true) : Table where
  definition :=
    ⟨[("id", .int64), (versionColumn, .nullable .int64), (softDeleteColumn, .nullable .DATETIME)],
      ⟨.mergeTree, some ["id"], none, none, none⟩⟩
  rows := rows
  nodup := by decide
  suits := by decide
  fits := h

/-- Rows of the versions before and after the activated one. -/
theorem activatesFrom_between :
    (withMetadata [[("id", .int 1), (versionColumn, .int 1), (softDeleteColumn, .none)],
      [("id", .int 2), (versionColumn, .int 3), (softDeleteColumn, .none)]]
      (by decide)).ActivatesFrom 2 := by
  refine (activatesFrom_iff (by decide) (by decide)).2 fun row hrow => ?_
  obtain ⟨hmem, -⟩ := List.mem_filter.1 hrow
  rcases List.mem_pair.1 hmem with rfl | rfl
  · exact ⟨1, rfl, by decide⟩
  · exact ⟨3, rfl, by decide⟩

/-- With `hard_delete` set, the row that was loaded under the activated version is removed. -/
theorem not_activatesFrom_current :
    ¬ (withMetadata [[("id", .int 1), (versionColumn, .int 2), (softDeleteColumn, .none)]]
      (by decide)).ActivatesFrom 2 := by
  intro h
  have hlength := congrArg (Option.map List.length) (h { hardDelete := some true } .epoch)
  exact absurd hlength (by decide)

end Table

/-! ## Deletion timestamps -/

/-- A reading of the clock, which is later than the year of the epoch. -/
abbrev Clock := { now : DateTime // 1970 < now.date.year }

/-- The version of the row is older than the activated one. -/
def Older (newVersion : ℤ) (row : Record) : Prop := ∃ n, version row = some n ∧ n < newVersion

namespace Table

/-- The row has never been marked: there is no soft-delete column, or the row holds what
`ADD COLUMN` or an insert without the column puts there. -/
def Unmarked (t : Table) (row : Record) : Prop :=
  ∀ type, t.definition.columns.lookup softDeleteColumn = some type →
    row.lookup softDeleteColumn = some type.fill

/-- Every row of an older version is marked in the second table: with the deletion timestamp, or as
it was marked before. -/
def MarksOlder (newVersion : ℤ) (deletedAt : DateTime) (t t' : Table) : Prop :=
  List.Forall₂ (fun row row' => Older newVersion row' →
    (t.Unmarked row → marker row' = some (.datetime deletedAt)) ∧
      (¬ t.Unmarked row → marker row' = marker row)) t.rows t'.rows

/-- The soft-delete column is there and can hold `NULL`. -/
def NullableMarker (t : Table) : Prop :=
  ∃ type, t.definition.columns.lookup softDeleteColumn = some type ∧ type.isNullable = true

variable {t : Table} {c : Config} {newVersion : ℤ} {deletedAt : DateTime}

/-- A row in the columns of the activation. -/
def grown (t : Table) (row : Record) : Record :=
  t.ensureVersion.filled softDeleteColumn .dateTime (t.filled versionColumn .integer row)

theorem lookup_grown {row : Record} (hrow : row ∈ t.rows) :
    (t.grown row).lookup softDeleteColumn =
      some ((row.lookup softDeleteColumn).getD (.datetime .epoch)) := by
  have hmem : t.filled versionColumn .integer row ∈ t.ensureVersion.rows := by
    rw [ensureVersion, rows_ensureColumn]
    exact List.mem_map_of_mem hrow
  rw [grown, lookup_filled hmem, lookup_filled_of_ne (by decide)]
  rfl

theorem version_grown {row : Record} (hrow : row ∈ t.rows) :
    version (t.grown row) = version row := by
  rw [version, grown, lookup_filled_of_ne (by decide), lookup_filled hrow]
  rfl

/-- A row after an activation that marks. -/
def activated (newVersion : ℤ) (deletedAt : DateTime) (t : Table) (row : Record) : Record :=
  if Sql.holds (olderUnmarked newVersion (t.grown row)) then setMarker deletedAt (t.grown row)
  else t.grown row

theorem rows_activate (hsoft : c.usesHardDelete = false) :
    (t.activate c newVersion deletedAt).rows = t.rows.map (t.activated newVersion deletedAt) := by
  have hrows : t.ensureVersion.ensureMarker.rows = t.rows.map t.grown := by
    rw [ensureMarker, rows_ensureColumn, ensureVersion, rows_ensureColumn, List.map_map]
    rfl
  unfold activate
  rw [if_neg (by simp [hsoft])]
  show Sql.updateWhere _ _ t.ensureVersion.ensureMarker.rows = _
  rw [hrows, Sql.updateWhere, List.map_map]
  rfl

theorem version_activated {row : Record} (hrow : row ∈ t.rows) :
    version (t.activated newVersion deletedAt row) = version row := by
  unfold activated
  split_ifs
  · rw [version_setMarker, version_grown hrow]
  · rw [version_grown hrow]

/-- An older row keeps what its soft-delete column holds, or gets the timestamp. -/
theorem marker_activated {row : Record} (hrow : row ∈ t.rows) (hold : Older newVersion row) :
    marker (t.activated newVersion deletedAt row) =
      some (((row.lookup softDeleteColumn).getD (.datetime .epoch)).nonNull.getD
        (.datetime deletedAt)) := by
  have hmarker : marker (t.grown row) =
      ((row.lookup softDeleteColumn).getD (.datetime .epoch)).nonNull := by
    rw [marker, lookup_grown hrow]
    rfl
  have hlt : Sql.holds (Sql.lt (version (t.grown row)) (some newVersion)) = true := by
    rw [version_grown hrow]
    exact Sql.holds_lt_iff.2 hold
  rw [← hmarker, activated, olderUnmarked, Sql.holds_and, Sql.holds_isNull, hlt]
  cases hnull : marker (t.grown row) with
  | none => exact marker_setMarker deletedAt _
  | some v => exact hnull

/-- The rows that an activation has to mark, one by one. -/
theorem marksOlder_activate_iff (hsoft : c.usesHardDelete = false) :
    t.MarksOlder newVersion deletedAt (t.activate c newVersion deletedAt) ↔
      ∀ row ∈ t.rows, Older newVersion row →
        (t.Unmarked row →
          marker (t.activated newVersion deletedAt row) = some (.datetime deletedAt)) ∧
        (¬ t.Unmarked row → marker (t.activated newVersion deletedAt row) = marker row) := by
  rw [MarksOlder, rows_activate hsoft, List.forall₂_map_right_iff, List.forall₂_same]
  refine forall₂_congr fun row hrow => ?_
  rw [Older, version_activated hrow]
  rfl

/-- The value in a row's soft-delete column, when the column is there. -/
theorem exists_lookup_marker {type : SqlType} {row : Record} (hrow : row ∈ t.rows)
    (htype : t.definition.columns.lookup softDeleteColumn = some type) :
    ∃ v, row.lookup softDeleteColumn = some v ∧ type.stores v = true ∧
      (t.Unmarked row ↔ v = type.fill) := by
  obtain ⟨v, hv, hstores⟩ := lookup_of_rowFits (t.fits row hrow) htype
  refine ⟨v, hv, hstores, fun h => Option.some.inj (hv.symm.trans (h type htype)), ?_⟩
  rintro rfl type' htype'
  obtain rfl := Option.some.inj (htype.symm.trans htype')
  exact hv

/-- With a column that can hold `NULL`, every older row is marked. -/
theorem marksOlder_of_nullable (hsoft : c.usesHardDelete = false) (h : t.NullableMarker) :
    t.MarksOlder newVersion deletedAt (t.activate c newVersion deletedAt) := by
  obtain ⟨type, htype, hnull⟩ := h
  have hfill : type.fill = .none := by
    cases type with
    | nullable type => rfl
    | _ => cases hnull
  refine (marksOlder_activate_iff hsoft).2 fun row hrow hold => ?_
  obtain ⟨v, hv, -, hunmarked⟩ := exists_lookup_marker hrow htype
  rw [marker_activated hrow hold, hunmarked, hfill, marker, hv, Option.getD_some]
  constructor
  · rintro rfl
    rfl
  · intro hne
    rw [Value.nonNull_of_ne hne]
    exact (Value.nonNull_of_ne hne).symm

/-- Without such a column a row holds a value, which is the epoch when the row is not marked. -/
theorem exists_value_of_not_nullable (h : ¬ t.NullableMarker) {row : Record} (hrow : row ∈ t.rows) :
    ∃ v, (row.lookup softDeleteColumn).getD (.datetime .epoch) = v ∧ v ≠ .none ∧
      (t.Unmarked row → v = .datetime .epoch) ∧ (¬ t.Unmarked row → marker row = some v) := by
  rcases htype : t.definition.columns.lookup softDeleteColumn with _ | type
  · have hnone : row.lookup softDeleteColumn = none := by
      refine Dict.lookup_eq_none fun hmem => ?_
      rw [keys_of_rowFits (t.fits row hrow), ← Dict.lookup_isSome_iff, htype] at hmem
      cases hmem
    refine ⟨_, rfl, by simp [hnone], fun _ => by rw [hnone]; rfl, fun hmarked => ?_⟩
    refine absurd (fun type htype' => ?_) hmarked
    rw [htype] at htype'
    cases htype'
  · obtain ⟨v, hv, hstores, hunmarked⟩ := exists_lookup_marker hrow htype
    have hnull : type.isNullable = false := by
      by_contra hn
      exact h ⟨type, htype, by simpa using hn⟩
    have hne : v ≠ .none := by
      rintro rfl
      rw [SqlType.stores_none, hnull] at hstores
      cases hstores
    refine ⟨v, by rw [hv]; rfl, hne, fun hu => ?_, fun _ => ?_⟩
    · rw [hunmarked.1 hu]
      exact SqlType.fill_of_isDatetime (isDatetime_of_mem (Dict.mem_of_lookup htype)) hnull
    · rw [marker, hv]
      exact Value.nonNull_of_ne hne

/-- Without such a column no row is ever marked, so that nothing must be left to mark. -/
theorem marksOlder_iff_of_not_nullable (hsoft : c.usesHardDelete = false)
    (h : ¬ t.NullableMarker) (now : Clock) :
    t.MarksOlder newVersion now.1 (t.activate c newVersion now.1) ↔
      ∀ row ∈ t.rows, t.Unmarked row → ¬ Older newVersion row := by
  rw [marksOlder_activate_iff hsoft]
  refine forall₂_congr fun row hrow => ?_
  have hnow : Value.datetime .epoch ≠ .datetime now.1 := by
    intro he
    have hyear := now.2
    rw [← Value.datetime.inj he] at hyear
    exact absurd hyear (by decide)
  obtain ⟨v, hv, hne, hunmarked, hmarked⟩ := exists_value_of_not_nullable h hrow
  constructor
  · intro hmarks hu hold
    have hmarker := (hmarks hold).1 hu
    rw [marker_activated hrow hold, hv, Value.nonNull_of_ne hne, hunmarked hu] at hmarker
    exact hnow (Option.some.inj hmarker)
  · intro hnothing hold
    refine ⟨fun hu => absurd hold (hnothing hu), fun hm => ?_⟩
    rw [marker_activated hrow hold, hv, Value.nonNull_of_ne hne, hmarked hm]
    rfl

/-! ### Runs of activations and loads -/

/-- A row is inserted when it fits. -/
def load (row : Record) (t : Table) : Table :=
  if h : rowFits t.definition.columns row = true then
    t.withRows (t.rows ++ [row]) fun row' hrow' => by
      rcases List.mem_append.1 hrow' with hold | hnew
      · exact t.fits row' hold
      · rwa [List.mem_singleton.1 hnew]
  else t

/-- What happens to a table. -/
inductive Event where
  | activate (newVersion : ℤ) (deletedAt : Clock)
  | load (row : Record)

def step (c : Config) (t : Table) : Event → Option Table
  | .activate newVersion deletedAt => activateVersion c newVersion deletedAt.1 (some t)
  | .load row => some (t.load row)

/-- An activation marks every older row. -/
def Marks (c : Config) (t : Table) : Event → Prop
  | .activate newVersion deletedAt =>
      ∀ t', activateVersion c newVersion deletedAt.1 (some t) = some t' →
        t.MarksOlder newVersion deletedAt.1 t'
  | .load _ => True

/-- An activation has no row to mark. -/
def NothingToMark (t : Table) : Event → Prop
  | .activate newVersion _ => ∀ row ∈ t.rows, t.Unmarked row → ¬ Older newVersion row
  | .load _ => True

theorem nullableMarker_activate (hsoft : c.usesHardDelete = false) :
    (t.activate c newVersion deletedAt).NullableMarker ↔ t.NullableMarker := by
  have hdefinition : (t.activate c newVersion deletedAt).definition =
      t.ensureVersion.ensureMarker.definition := by
    unfold activate
    rw [if_neg (by simp [hsoft])]
    rfl
  have hversion : t.ensureVersion.definition.columns.lookup softDeleteColumn =
      t.definition.columns.lookup softDeleteColumn := lookup_ensureColumn_of_ne (by decide)
  rw [NullableMarker, NullableMarker, hdefinition, ensureMarker]
  by_cases hc : softDeleteColumn ∈ Dict.keys t.ensureVersion.definition.columns
  · rw [ensureColumn_of_mem hc, hversion]
  · have hnone := Dict.lookup_eq_none hc
    rw [columns_ensureColumn hc, List.lookup_append, hnone, Dict.lookup_cons, if_pos rfl,
      ← hversion, hnone]
    refine iff_of_false ?_ ?_
    · rintro ⟨type, htype, hnull⟩
      obtain rfl := Option.some.inj htype
      cases hnull
    · rintro ⟨type, htype, -⟩
      cases htype

/-- No event makes the soft-delete column able to hold `NULL`, or takes that away. -/
theorem nullableMarker_step (hsoft : c.usesHardDelete = false) {t' : Table} {e : Event}
    (h : t.step c e = some t') : t'.NullableMarker ↔ t.NullableMarker := by
  cases e with
  | activate newVersion deletedAt =>
    obtain rfl := Option.some.inj h
    exact nullableMarker_activate hsoft
  | load row =>
    obtain rfl := Option.some.inj h
    unfold load
    split_ifs <;> exact Iff.rfl

/-- Every activation of a run marks the older rows exactly when the soft-delete column can hold
`NULL` from the beginning, or no activation finds a row that it has to mark. -/
theorem marksThroughout_iff (hsoft : c.usesHardDelete = false) (t : Table) (events : List Event) :
    Runs.AllSteps (step c) (Marks c) t events ↔
      t.NullableMarker ∨ Runs.AllSteps (step c) NothingToMark t events := by
  by_cases hn : t.NullableMarker
  · refine iff_of_true ?_ (Or.inl hn)
    refine Runs.AllSteps.of_invariant (P := NullableMarker)
      (fun ht he => (nullableMarker_step hsoft he).2 ht) (fun {t e} ht => ?_) hn
    cases e with
    | activate newVersion deletedAt =>
      intro t' ht'
      obtain rfl := Option.some.inj ht'
      exact marksOlder_of_nullable hsoft ht
    | load row => trivial
  · rw [or_iff_right hn]
    refine Runs.AllSteps.iff_of_invariant (P := fun t => ¬ t.NullableMarker)
      (fun ht he => mt (nullableMarker_step hsoft he).1 ht) (fun {t e} ht => ?_) hn
    cases e with
    | activate newVersion deletedAt =>
      refine Iff.trans ⟨fun h => h _ rfl, fun h t' ht' => ?_⟩
        (marksOlder_iff_of_not_nullable hsoft ht deletedAt)
      obtain rfl := Option.some.inj ht'
      exact h
    | load row => exact Iff.rfl

/-- A reading of the clock. -/
def noon : Clock := ⟨⟨⟨2024, 6, 1⟩, ⟨12, 0, 0, 0⟩, some 0⟩, by decide⟩

/-- Two activations, with a load between them. -/
theorem marksThroughout_metadata :
    Runs.AllSteps (step { hardDelete := some false }) (Marks { hardDelete := some false })
      (withMetadata [[("id", .int 1), (versionColumn, .int 1), (softDeleteColumn, .none)]]
        (by decide))
      [.activate 2 noon,
        .load [("id", .int 2), (versionColumn, .int 2), (softDeleteColumn, .none)],
        .activate 3 noon] :=
  (marksThroughout_iff rfl _ _).2 (Or.inl ⟨.nullable .DATETIME, rfl, rfl⟩)

/-- A table that was created without the soft-delete column. -/
def withoutMetadata : Table where
  definition :=
    ⟨[("id", .int64), (versionColumn, .int64)], ⟨.mergeTree, some ["id"], none, none, none⟩⟩
  rows := [[("id", .int 1), (versionColumn, .int 1)]]
  nodup := by decide
  suits := by decide
  fits := by decide

/-- The activation adds the soft-delete column, and the row of the older version gets the epoch. -/
theorem not_marksThroughout_added :
    ¬ Runs.AllSteps (step { hardDelete := some false }) (Marks { hardDelete := some false })
      withoutMetadata [.activate 2 noon] := by
  intro h
  have hmarks := h.1 _ rfl
  obtain ⟨hrow, -⟩ := List.forall₂_cons.1 hmarks
  have hmarker := (hrow ⟨1, rfl, by decide⟩).1 (fun type htype => by cases htype)
  exact absurd (Value.datetime.inj (Option.some.inj hmarker)) (by decide)

end Table

end TargetClickhouse
