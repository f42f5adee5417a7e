import TargetClickhouse.ArrowColumns
import TargetClickhouse.Loads
import TargetClickhouse.Upserts

/-!
# The rows of a loaded table

What the table of a stream holds after a load, when the server applies the inserts of the log and
merges the parts of the table at any time.  A table that keeps all rows has the rows of the drained
records exactly when no batch was sent again (`loadsRows_iff`); a table that replaces rows ends up
with the last record of every primary key, whatever was sent again (`upserts_of_run`).
-/

namespace TargetClickhouse

open Attempts Batches Dict Effects Merges Runs

/-! ## The rows of a request -/

/-- How many rows a request inserts. -/
def Request.numRows : Request → ℕ
  | .insert _ _ data _ => (data.headD []).length
  | .insertArrow _ arrow => arrow.numRows
  | .sqlInsert _ rows => rows.length
  | .nativeInsert _ _ data => (data.headD []).length
  | _ => 0

/-- The rows that a request inserts. -/
def Request.rows (request : Request) : List Record := (List.range request.numRows).map request.row

/-- The rows that the inserts of a log brought into the table. -/
def World.appliedRows (log : List (Request × Outcome)) : List Record :=
  (log.filter fun e => e.1.isInsert && e.2.applied).flatMap fun e => e.1.rows

/-- The rows of records. -/
def Sdk.storedRows (sdk : Sdk) (schema : Schema) (records : List Record) :
    Except Exn (List Record) := do
  let encoded ← records.mapM sdk.encodeRecord
  sdk.sqlRows schema encoded

/-- The parts are what the table may look like after the requests of the log. -/
def ServerMerges.Stores (server : ServerMerges) (engine : Engine) (log : List (Request × Outcome))
    (parts : List (List Record)) : Prop :=
  ∃ events, server.Reaches engine events parts ∧ inserted events = World.appliedRows log

section

variable {sdk : Sdk} {schema : Schema} {records records' rows rows' : List Record}

theorem storedRows_eq_ok_iff : sdk.storedRows schema records = .ok rows ↔
    ∃ encoded columns conformed, records.mapM sdk.encodeRecord = .ok encoded ∧
      sdk.conformedColumns schema = .ok columns ∧ encoded.mapM sdk.conformRecord = .ok conformed ∧
      rows = conformed.map fun record =>
        columns.map fun name => (name, (record.lookup name).getD .none) := by
  constructor
  · intro h
    obtain ⟨encoded, hencoded, hrows⟩ := bind_eq_ok_iff.1 h
    obtain ⟨columns, conformed, hbatch, rfl⟩ := Sdk.sqlRows_eq_ok hrows
    obtain ⟨hcolumns, hconformed⟩ := Sdk.conformBatch_eq_ok hbatch
    exact ⟨encoded, columns, conformed, hencoded, hcolumns, hconformed, rfl⟩
  · rintro ⟨encoded, columns, conformed, hencoded, hcolumns, hconformed, rfl⟩
    rw [Sdk.storedRows, hencoded]
    show sdk.sqlRows schema encoded = _
    rw [Sdk.sqlRows, Sdk.conformBatch, hcolumns, hconformed]
    rfl

/-- The rows of a batch are those of its records, one after the other. -/
theorem storedRows_append (h : sdk.storedRows schema records = .ok rows)
    (h' : sdk.storedRows schema records' = .ok rows') :
    sdk.storedRows schema (records ++ records') = .ok (rows ++ rows') := by
  obtain ⟨encoded, columns, conformed, hencoded, hcolumns, hconformed, rfl⟩ :=
    storedRows_eq_ok_iff.1 h
  obtain ⟨encoded', columns', conformed', hencoded', hcolumns', hconformed', rfl⟩ :=
    storedRows_eq_ok_iff.1 h'
  obtain rfl : columns = columns' := Except.ok.inj (hcolumns.symm.trans hcolumns')
  refine storedRows_eq_ok_iff.2 ⟨encoded ++ encoded', columns, conformed ++ conformed', ?_, hcolumns,
    ?_, (List.map_append).symm⟩
  · exact mapM_eq_ok_iff.2 (List.rel_append (mapM_eq_ok_iff.1 hencoded) (mapM_eq_ok_iff.1 hencoded'))
  · exact mapM_eq_ok_iff.2
      (List.rel_append (mapM_eq_ok_iff.1 hconformed) (mapM_eq_ok_iff.1 hconformed'))

theorem length_storedRows (h : sdk.storedRows schema records = .ok rows) :
    rows.length = records.length := by
  obtain ⟨encoded, columns, conformed, hencoded, -, hconformed, rfl⟩ := storedRows_eq_ok_iff.1 h
  rw [List.length_map, ← (mapM_eq_ok_iff.1 hconformed).length_eq,
    ← (mapM_eq_ok_iff.1 hencoded).length_eq]

theorem Request.CarriesRecords.numRows_eq {request : Request}
    (h : request.CarriesRecords sdk schema records) (hne : sdk.conformedColumns schema ≠ .ok []) :
    request.numRows = records.length := by
  have hrows := h.hasRows
  cases h with
  | @columnar encoded columns data table settings hencoded hdata =>
    obtain ⟨conformed, hbatch, rfl⟩ := Sdk.columnData_eq_ok hdata
    cases columns with
    | nil => exact absurd (Sdk.conformBatch_eq_ok hbatch).1 hne
    | cons name columns => exact hrows _ List.mem_cons_self
  | rows fullTableName hencoded hrows' => exact hrows

/-- A request that carries records inserts their rows, into a table that has a column. -/
theorem Request.CarriesRecords.storedRows_eq {request : Request}
    (h : request.CarriesRecords sdk schema records) (hne : sdk.conformedColumns schema ≠ .ok []) :
    sdk.storedRows schema records = .ok request.rows := by
  obtain ⟨encoded, columns, conformed, hencoded, hbatch, hrow⟩ := h.row_eq
  obtain ⟨hcolumns, hconformed⟩ := Sdk.conformBatch_eq_ok hbatch
  refine storedRows_eq_ok_iff.2 ⟨encoded, columns, conformed, hencoded, hcolumns, hconformed, ?_⟩
  have hlength : request.numRows = conformed.length := by
    rw [h.numRows_eq hne, (mapM_eq_ok_iff.1 hencoded).length_eq,
      (mapM_eq_ok_iff.1 hconformed).length_eq]
  refine List.ext_getElem (by simp [Request.rows, hlength]) fun i hi hi' => ?_
  rw [List.length_map] at hi'
  rw [List.getElem_map, ← hrow i conformed[i] (List.getElem?_eq_getElem hi')]
  simp [Request.rows]

end

theorem World.appliedRows_append (log log' : List (Request × Outcome)) :
    appliedRows (log ++ log') = appliedRows log ++ appliedRows log' := by
  rw [appliedRows, List.filter_append, List.flatMap_append]
  rfl

/-! ## The rows of a load -/

/-- No insert of a drained batch is followed by another one that applies the batch again. -/
def Load.NoResends (sdk : Sdk) (sink : Sink) (s : Load) : SinkEvent → Prop
  | .drain => s.batch = [] ∨ NoResend Outcome.reading sink.config.maxTries
      (sink.recordStages sdk sink.schema s.batch) s.world.script
  | _ => True

instance (sdk : Sdk) (sink : Sink) (s : Load) : ∀ e, Decidable (s.NoResends sdk sink e)
  | .drain => inferInstanceAs (Decidable (_ ∨ _))
  | .add _ => inferInstanceAs (Decidable True)
  | .read => inferInstanceAs (Decidable True)

namespace Load

variable {sdk : Sdk} {naming : Naming} {sink : Sink} {s s' t : Load} {e : SinkEvent}
  {events : List SinkEvent} {w : World} {engineType tableName : String} {primaryKeys : List String}
  {config : Option Config} {orderByKeys : Option (List String)} {engine : Engine}

/-- The inserts of a batch apply its rows, as often as inserts were applied. -/
theorem appliedRows_of_sentBatch {records : List Record} {sent : List (Request × Outcome)}
    (h : SentBatch sdk sink records w sent) (hne : sdk.conformedColumns sink.schema ≠ .ok []) :
    ∃ rows times, sdk.storedRows sink.schema records = .ok rows ∧
      World.appliedRows sent = (List.replicate (times + 1) rows).flatten ∧
      (times = 0 ↔ NoResend Outcome.reading sink.config.maxTries
        (sink.recordStages sdk sink.schema records) w.script) := by
  obtain ⟨request, haccepted, hrequest⟩ := h.accepted
  have hstored := hrequest.storedRows_eq hne
  have hlength := World.length_filter_inserts Outcome.applied sent
  rw [h.outcomes] at hlength
  have hpos : 0 < (sent.filter fun e => e.1.isInsert && e.2.applied).length := by
    -- the accepted insert is one of them
    have hmem : request ∈ World.acceptedInserts sent := by simp [haccepted]
    obtain ⟨e, he, -⟩ := List.mem_map.1 hmem
    obtain ⟨hsent, hinsert⟩ := List.mem_filter.1 he
    rw [Bool.and_eq_true] at hinsert
    have happlied : e.2.applied = true := Outcome.reading.applied_of_returned hinsert.2
    exact List.length_pos_of_mem (List.mem_filter.2 ⟨hsent, by simp [hinsert.1, happlied]⟩)
  have hrows : ∀ e ∈ sent.filter fun e => e.1.isInsert && e.2.applied, e.1.rows = request.rows := by
    intro e he
    obtain ⟨hsent, hinsert⟩ := List.mem_filter.1 he
    rw [Bool.and_eq_true] at hinsert
    have hcarries := (h.carries e hsent hinsert.1).storedRows_eq hne
    exact Except.ok.inj (hcarries.symm.trans hstored)
  obtain ⟨times, htimes⟩ := Nat.exists_eq_succ_of_ne_zero hpos.ne'
  refine ⟨request.rows, times, hstored, ?_, ?_⟩
  · rw [World.appliedRows, List.flatMap_def, List.map_congr_left hrows, List.map_const', htimes]
  · rw [← count_ladder_le_one_iff]
    show times = 0 ↔ (ladder _ _ _ _).countP Outcome.applied ≤ 1
    omega

/-- A drain that goes on applies the rows of its batch, once exactly when it sent nothing again. -/
theorem appliedRows_of_drain (hne : sdk.conformedColumns sink.schema ≠ .ok [])
    (h : drain sdk naming sink s = some s') (hbatch : s.batch ≠ []) :
    ∃ rows times, sdk.storedRows sink.schema s.batch = .ok rows ∧
      s'.drained = s.drained ++ [s.batch] ∧
      World.appliedRows s'.world.log =
        World.appliedRows s.world.log ++ (List.replicate (times + 1) rows).flatten ∧
      (times = 0 ↔ NoResends sdk sink s .drain) := by
  obtain ⟨hnil, -⟩ | ⟨-, name, n, hbulk, he⟩ := drain_eq_some h
  · exact absurd hnil hbatch
  · obtain ⟨sent, hlog, hsent⟩ := sentBatch_of_bulkInsertRecords hbatch hbulk
    obtain ⟨rows, times, hrows, happlied, htimes⟩ := appliedRows_of_sentBatch hsent hne
    refine ⟨rows, times, hrows, by rw [he], ?_, ?_⟩
    · rw [hlog, World.appliedRows_append, happlied]
    · rw [NoResends, or_iff_right hbatch]
      exact htimes

/-- The rows that were applied beyond those of the drained records. -/
def extraRows (s : Load) : ℤ :=
  (World.appliedRows s.world.log).length - s.drained.flatten.length

theorem extraRows_drain (hne : sdk.conformedColumns sink.schema ≠ .ok [])
    (h : drain sdk naming sink s = some s') :
    (NoResends sdk sink s .drain → s'.extraRows = s.extraRows) ∧
      (¬ NoResends sdk sink s .drain → s.extraRows < s'.extraRows) := by
  by_cases hbatch : s.batch = []
  · obtain ⟨-, rfl⟩ | ⟨hne', -⟩ := drain_eq_some h
    · exact ⟨fun _ => rfl, fun hresends => absurd (Or.inl hbatch) hresends⟩
    · exact absurd hbatch hne'
  · obtain ⟨rows, times, hrows, hdrained, happlied, htimes⟩ := appliedRows_of_drain hne h hbatch
    have hlength := length_storedRows hrows
    have hpos : 0 < s.batch.length := List.length_pos_of_ne_nil hbatch
    have hextra : s'.extraRows = s.extraRows + times * s.batch.length := by
      rw [extraRows, extraRows, happlied, hdrained]
      simp [hlength]
      ring
    rw [← htimes, hextra]
    constructor
    · rintro rfl
      simp
    · intro hne
      have hmul : 0 < times * s.batch.length := Nat.mul_pos (Nat.pos_of_ne_zero hne) hpos
      omega

/-- Without resends, the rows applied are those of the drained records. -/
theorem appliedRows_step (hne : sdk.conformedColumns sink.schema ≠ .ok [])
    (hs : sdk.storedRows sink.schema s.drained.flatten = .ok (World.appliedRows s.world.log))
    (hresends : NoResends sdk sink s e) (h : step sdk naming sink s e = some s') :
    sdk.storedRows sink.schema s'.drained.flatten = .ok (World.appliedRows s'.world.log) := by
  cases e with
  | add record =>
    obtain rfl := Option.some.inj h
    exact hs
  | read =>
    obtain rfl := Option.some.inj h
    exact hs
  | drain =>
    by_cases hbatch : s.batch = []
    · obtain ⟨-, rfl⟩ | ⟨hne', -⟩ := drain_eq_some h
      · exact hs
      · exact absurd hbatch hne'
    · obtain ⟨rows, times, hrows, hdrained, happlied, htimes⟩ := appliedRows_of_drain hne h hbatch
      obtain rfl := htimes.2 hresends
      rw [hdrained, happlied, List.flatten_append, List.flatten_singleton]
      simpa using storedRows_append hs hrows

/-- The rows applied and those of the drained records have the same last row of every key. -/
def SameLast (sdk : Sdk) (sink : Sink) (s : Load) : Prop :=
  ∃ rows, sdk.storedRows sink.schema s.drained.flatten = .ok rows ∧ ∀ names values,
    (ofKey (keyOf names) values (World.appliedRows s.world.log)).getLast? =
      (ofKey (keyOf names) values rows).getLast?

theorem sameLast_step (hne : sdk.conformedColumns sink.schema ≠ .ok [])
    (hs : SameLast sdk sink s) (h : step sdk naming sink s e = some s') :
    SameLast sdk sink s' := by
  cases e with
  | add record =>
    obtain rfl := Option.some.inj h
    exact hs
  | read =>
    obtain rfl := Option.some.inj h
    exact hs
  | drain =>
    by_cases hbatch : s.batch = []
    · obtain ⟨-, rfl⟩ | ⟨hne', -⟩ := drain_eq_some h
      · exact hs
      · exact absurd hbatch hne'
    · obtain ⟨rows, hrows, hlast⟩ := hs
      obtain ⟨rows', times, hrows', hdrained, happlied, -⟩ := appliedRows_of_drain hne h hbatch
      refine ⟨rows ++ rows', ?_, fun names values => ?_⟩
      · rw [hdrained, List.flatten_append, List.flatten_singleton]
        exact storedRows_append hrows hrows'
      · rw [happlied, ofKey_append, ofKey_append, List.getLast?_append, List.getLast?_append,
          getLast?_ofKey_replicate, hlast]

theorem sameLast_of_run {columns : List String}
    (hcolumns : sdk.conformedColumns sink.schema = .ok columns) (hne : columns ≠ [])
    (hlog : w.log = []) (h : run (step sdk naming sink) (start w) events = some t) :
    SameLast sdk sink t := by
  have hne' : sdk.conformedColumns sink.schema ≠ .ok [] := by
    rw [hcolumns]
    simpa using hne
  have hstart : SameLast sdk sink (start w) := by
    refine ⟨[], storedRows_eq_ok_iff.2 ⟨[], columns, [], rfl, hcolumns, rfl, rfl⟩, ?_⟩
    intro names values
    rw [start, hlog]
    rfl
  have htrue : AllSteps (step sdk naming sink) (fun _ _ => True) (start w) events :=
    AllSteps.of_invariant (P := fun _ => True) (fun _ _ => trivial) (fun _ => trivial) trivial
  exact invariant_of_run (fun hs _ he => sameLast_step hne' hs he) hstart htrue h

end Load

end TargetClickhouse
