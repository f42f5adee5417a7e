import TargetClickhouse.Inserts

/-!
# What a returning call has delivered

A call of `bulk_insert_records` or `_insert_arrow_table` that returns has sent a request with all
rows of its batch that was accepted (`accepted_of_bulkInsertRecords`, `insertArrowTable_spec`),
whichever path served it and whatever row count the driver reported.
-/

namespace TargetClickhouse

open Effects Effects.Proc Dict

/-! ## Logs that grow -/

namespace World

/-- The log has grown, and the files are the same. -/
def Extends (w w' : World) : Prop := w'.files = w.files ∧ w.log <+: w'.log

instance : IsPreorder World Extends where
  refl _ := ⟨rfl, List.prefix_rfl⟩
  trans _ _ _ h₁ h₂ := ⟨h₂.1.trans h₁.1, h₁.2.trans h₂.2⟩

/-- Between the two worlds, a request with the property was sent and accepted. -/
def Accepted (p : Request → Prop) (w w' : World) : Prop :=
  ∃ request rowcount log, p request ∧ w.log <+: log ∧
    log ++ [(request, Outcome.returned rowcount)] <+: w'.log

theorem Accepted.of_extends {p : Request → Prop} {w₁ w₂ w₃ w₄ : World}
    (h : Accepted p w₂ w₃) (h₁ : w₁.Extends w₂) (h₂ : w₃.Extends w₄) : Accepted p w₁ w₄ := by
  obtain ⟨request, n, log, hp, hpre, hlog⟩ := h
  exact ⟨request, n, log, hp, h₁.2.trans hpre, hlog.trans h₂.2⟩

theorem Accepted.imp {p q : Request → Prop} {w w' : World} (h : Accepted p w w')
    (hpq : ∀ request, p request → q request) : Accepted q w w' := by
  obtain ⟨request, n, log, hp, hlog⟩ := h
  exact ⟨request, n, log, hpq request hp, hlog⟩

/-- The requests that were sent between the two worlds have the property. -/
def Sends (p : Request → Prop) (w w' : World) : Prop :=
  ∃ sent, w'.log = w.log ++ sent ∧ ∀ e ∈ sent, p e.1

instance {p : Request → Prop} : IsPreorder World (Sends p) where
  refl w := ⟨[], (List.append_nil _).symm, fun _ h => by cases h⟩
  trans _ _ _ h₁ h₂ := by
    obtain ⟨sent₁, hlog₁, hp₁⟩ := h₁
    obtain ⟨sent₂, hlog₂, hp₂⟩ := h₂
    refine ⟨sent₁ ++ sent₂, by rw [hlog₂, hlog₁, List.append_assoc], fun e he => ?_⟩
    exact (List.mem_append.1 he).elim (hp₁ e) (hp₂ e)

theorem Sends.forall_of_log {p : Request → Prop} {w w' : World}
    {sent : List (Request × Outcome)} (h : Sends p w w') (hlog : w'.log = w.log ++ sent) :
    ∀ e ∈ sent, p e.1 := by
  obtain ⟨sent', hlog', hp⟩ := h
  rwa [List.append_cancel_left (hlog.symm.trans hlog')]

theorem Sends.insertOutcomes_eq {w w' : World}
    (h : Sends (fun request => request.isInsert = false) w w') :
    w'.insertOutcomes = w.insertOutcomes := by
  obtain ⟨sent, hlog, hsent⟩ := h
  have hnone : sent.filter (fun e => e.1.isInsert) = [] :=
    List.filter_eq_nil_iff.2 fun e he => by simp [hsent e he]
  rw [insertOutcomes, insertOutcomes, hlog, List.filter_append, hnone, List.append_nil]

end World

theorem extends_send (request : Request) : Moves World.Extends (send request) :=
  moves_send fun _ _ _ => ⟨rfl, List.prefix_append _ _⟩

theorem sends_send {p : Request → Prop} {request : Request} (h : p request) :
    Moves (World.Sends p) (send request) :=
  moves_send fun _ o _ => ⟨[(request, o)], rfl, by simpa using h⟩

/-- A request that returns was accepted. -/
theorem accepted_of_send {request : Request} {w w' : World} {n : ℤ}
    (h : send request w = (.ok n, w')) : World.Accepted (· = request) w w' := by
  obtain ⟨rest, -, rfl⟩ := send_eq_ok.1 h
  exact ⟨request, n, w.log, rfl, List.prefix_rfl, List.prefix_rfl⟩

/-! ## The requests of an insert -/

/-- The request has all rows of the records, as the insert paths bring them into shape. -/
inductive Request.CarriesRecords (sdk : Sdk) (schema : Schema) (records : List Record) :
    Request → Prop where
  | columnar {encoded : List Record} {columns : List String} {data : List (List Value)}
      (table : TableRef) (settings : Option (List (String × ℕ)))
      (hencoded : records.mapM sdk.encodeRecord = .ok encoded)
      (hdata : sdk.columnData schema encoded = .ok (columns, data)) :
      CarriesRecords sdk schema records (.insert table columns data settings)
  | rows {encoded rows : List Record} (fullTableName : String)
      (hencoded : records.mapM sdk.encodeRecord = .ok encoded)
      (hrows : sdk.sqlRows schema encoded = .ok rows) :
      CarriesRecords sdk schema records (.sqlInsert fullTableName rows)

/-- The request has all rows of the Arrow table. -/
inductive Request.Carries (sdk : Sdk) (schema : Schema) (table : ArrowTable) : Request → Prop where
  | arrow (target : TableRef) : Carries sdk schema table (.insertArrow target (table.conform sdk))
  | native (target : TableRef) : Carries sdk schema table
      (.nativeInsert target (table.conform sdk).names (table.conform sdk).columns)
  | records {request : Request}
      (h : request.CarriesRecords sdk schema (table.conform sdk).toPylist) :
      Carries sdk schema table request

/-- `bulk_insert_records` sends the request: a columnar insert with the settings of the sink, the
insert of the SDK, or an `OPTIMIZE`. -/
def Request.IssuedForRecords (sink : Sink) : Request → Prop
  | .insert _ _ _ settings => settings = sink.insertSettings
  | .sqlInsert .. => True
  | .optimize _ => True
  | _ => False

/-- `_insert_arrow_table` sends the request: an insert with the rows of the table, or an
`OPTIMIZE`. -/
def Request.IssuedForArrow (sdk : Sdk) (sink : Sink) (table : ArrowTable) (request : Request) :
    Prop :=
  request.Carries sdk sink.schema table ∨ ∃ target, request = .optimize target

theorem Request.isInsert_of_carriesRecords {sdk : Sdk} {schema : Schema} {records : List Record}
    {request : Request} (h : request.CarriesRecords sdk schema records) :
    request.isInsert = true := by
  cases h <;> rfl

theorem Request.isInsert_of_carries {sdk : Sdk} {schema : Schema} {table : ArrowTable}
    {request : Request} (h : request.Carries sdk schema table) : request.isInsert = true := by
  cases h with
  | arrow target => rfl
  | native target => rfl
  | records h => exact isInsert_of_carriesRecords h

theorem Request.issuedForArrow_of_issuedForRecords {sdk : Sdk} {sink : Sink} {table : ArrowTable}
    {request : Request} (hissued : request.IssuedForRecords sink)
    (hcarries : request.isInsert = true →
      request.CarriesRecords sdk sink.schema (table.conform sdk).toPylist) :
    request.IssuedForArrow sdk sink table := by
  cases request with
  | insert table columns data settings => exact Or.inl (.records (hcarries rfl))
  | sqlInsert fullTableName rows => exact Or.inl (.records (hcarries rfl))
  | optimize target => exact Or.inr ⟨target, rfl⟩
  | _ => exact hissued.elim

namespace Sink

/-! ## Relations that every request keeps -/

section Moves

variable {R : World → World → Prop} [IsPreorder World R]
variable (sdk : Sdk) (naming : Naming) (sink : Sink)

section Records

variable {schema : Schema} {records encoded : List Record}
variable (hR : ∀ request : Request, request.IssuedForRecords sink →
  (request.isInsert = true → request.CarriesRecords sdk schema records) → Moves R (send request))

include hR

theorem moves_bulkInsertViaClickhouseConnect
    (hencoded : records.mapM sdk.encodeRecord = .ok encoded) (fullTableName : String) :
    Moves R (sink.bulkInsertViaClickhouseConnect sdk fullTableName schema encoded) := by
  unfold bulkInsertViaClickhouseConnect
  split_ifs
  · exact moves_pure 0
  · refine Moves.lift_bind fun (columns, data) hdata => ?_
    refine Moves.bind (hR (.insert _ columns data _) rfl fun _ => ?_) fun _ => moves_pure _
    exact .columnar _ _ hencoded hdata

theorem moves_sdkBulkInsertRecords (hencoded : records.mapM sdk.encodeRecord = .ok encoded)
    (fullTableName : String) :
    Moves R (sdkBulkInsertRecords sdk fullTableName schema encoded) :=
  Moves.lift_bind fun _ hrows =>
    hR (.sqlInsert _ _) trivial fun _ => .rows fullTableName hencoded hrows

theorem moves_insertRecords (hencoded : records.mapM sdk.encodeRecord = .ok encoded)
    (fullTableName : String) :
    Moves R (sink.insertRecords sdk fullTableName schema encoded) := by
  have hsdk := moves_sdkBulkInsertRecords sdk sink hR hencoded fullTableName
  unfold insertRecords
  split_ifs
  · refine Moves.handle ?_ fun _ => hsdk
    exact moves_withRetry sink (moves_bulkInsertViaClickhouseConnect sdk sink hR hencoded _)
  · exact hsdk

omit hR in
theorem moves_optimizeAfter (hoptimize : ∀ target, Moves R (send (.optimize target))) :
    Moves R (sink.optimizeAfter naming) := by
  unfold optimizeAfter
  split_ifs
  · refine (moves_lift _).bind fun _ => ?_
    exact (hoptimize _).bind fun _ => moves_pure _
  · exact moves_pure ()

theorem moves_bulkInsertRecords (fullTableName : String) :
    Moves R (sink.bulkInsertRecords sdk naming fullTableName schema records) := by
  refine Moves.lift_bind fun encoded hencoded => ?_
  refine (moves_insertRecords sdk sink hR hencoded _).bind fun res => ?_
  have hoptimize := moves_optimizeAfter naming sink fun target =>
    hR (.optimize target) trivial fun hinsert => by cases hinsert
  exact hoptimize.bind fun _ => moves_pure _

end Records

theorem moves_insertArrowViaRecords (table : ArrowTable)
    (hR : ∀ request : Request, request.IssuedForRecords sink →
      (request.isInsert = true → request.CarriesRecords sdk sink.schema table.toPylist) →
        Moves R (send request)) :
    Moves R (sink.insertArrowViaRecords sdk naming table) :=
  (moves_lift _).bind fun _ =>
    (moves_bulkInsertRecords sdk naming sink hR _).bind fun _ => moves_pure _

theorem moves_insertArrowViaClickhouseConnect (table : ArrowTable)
    (hR : ∀ target, Moves R (send (.insertArrow target table))) :
    Moves R (sink.insertArrowViaClickhouseConnect naming table) :=
  (moves_lift _).bind fun _ => (hR _).bind fun _ => moves_pure _

theorem moves_insertArrowViaNativeDriver (table : ArrowTable)
    (hR : ∀ target, Moves R (send (.nativeInsert target table.names table.columns))) :
    Moves R (sink.insertArrowViaNativeDriver naming table) :=
  (moves_lift _).bind fun _ => (hR _).bind fun _ => moves_pure _

theorem moves_insertArrowTable (table : ArrowTable)
    (hR : ∀ request : Request, request.IssuedForArrow sdk sink table → Moves R (send request)) :
    Moves R (sink.insertArrowTable sdk naming table) := by
  have hgeneric := moves_insertArrowViaRecords sdk naming sink (table.conform sdk)
    fun request hissued hcarries =>
      hR request (Request.issuedForArrow_of_issuedForRecords hissued hcarries)
  unfold insertArrowTable
  dsimp only
  split_ifs
  · exact moves_pure 0
  · refine Moves.handle ?_ fun _ => hgeneric
    exact moves_withRetry sink (moves_insertArrowViaClickhouseConnect naming sink _ fun _ =>
      hR _ (Or.inl (.arrow _)))
  · exact moves_insertArrowViaNativeDriver naming sink _ fun _ => hR _ (Or.inl (.native _))
  · exact hgeneric

end Moves

end Sink

/-! ## Deliveries -/

/-- The request sends so many rows. -/
def Request.HasRows (n : ℕ) : Request → Prop
  | .insert _ _ data _ => ∀ column ∈ data, column.length = n
  | .insertArrow _ arrow => arrow.numRows = n
  | .sqlInsert _ rows => rows.length = n
  | .nativeInsert _ _ data => ∀ column ∈ data, column.length = n
  | .optimize _ => False
  | .readFile _ => False
  | .removeFile _ => False

theorem Request.CarriesRecords.hasRows {sdk : Sdk} {schema : Schema} {records : List Record}
    {request : Request} (h : request.CarriesRecords sdk schema records) :
    request.HasRows records.length := by
  cases h with
  | @columnar encoded columns data table settings hencoded hdata =>
    rw [(mapM_eq_ok_iff.1 hencoded).length_eq]
    obtain ⟨conformed, hbatch, rfl⟩ := Sdk.columnData_eq_ok hdata
    intro column hcolumn
    obtain ⟨name, -, rfl⟩ := List.mem_map.1 hcolumn
    rw [List.length_map, Sdk.length_conformBatch hbatch]
  | @rows encoded rows fullTableName hencoded hrows =>
    rw [(mapM_eq_ok_iff.1 hencoded).length_eq]
    obtain ⟨columns, conformed, hbatch, rfl⟩ := Sdk.sqlRows_eq_ok hrows
    exact (List.length_map _).trans (Sdk.length_conformBatch hbatch)

/-- A request that carries a table sends all its rows. -/
theorem Request.Carries.hasRows {sdk : Sdk} {schema : Schema} {table : ArrowTable}
    {request : Request} (h : request.Carries sdk schema table) :
    request.HasRows table.numRows := by
  cases h with
  | arrow target => rfl
  | native target => exact table.length_of_mem
  | records h =>
    have hrows := h.hasRows
    rwa [ArrowTable.toPylist, List.length_map, List.length_range] at hrows

namespace Sink

variable {sdk : Sdk} {naming : Naming} {sink : Sink} {w w' : World} {n : ℤ}

theorem accepted_of_sdkBulkInsertRecords {fullTableName : String} {schema : Schema}
    {records encoded : List Record} (hencoded : records.mapM sdk.encodeRecord = .ok encoded)
    (h : sdkBulkInsertRecords sdk fullTableName schema encoded w = (.ok n, w')) :
    World.Accepted (Request.CarriesRecords sdk schema records) w w' := by
  obtain ⟨rows, hrows, hsend⟩ := lift_bind_eq_ok.1 h
  refine (accepted_of_send hsend).imp ?_
  rintro _ rfl
  exact .rows fullTableName hencoded hrows

theorem accepted_of_bulkInsertViaClickhouseConnect {fullTableName : String} {schema : Schema}
    {records encoded : List Record} (hencoded : records.mapM sdk.encodeRecord = .ok encoded)
    (hne : encoded ≠ [])
    (h : sink.bulkInsertViaClickhouseConnect sdk fullTableName schema encoded w = (.ok n, w')) :
    World.Accepted (Request.CarriesRecords sdk schema records) w w' := by
  rw [bulkInsertViaClickhouseConnect, if_neg hne] at h
  obtain ⟨⟨columns, data⟩, hdata, hrest⟩ := lift_bind_eq_ok.1 h
  obtain ⟨rfl, m, hsend⟩ := bind_pure_eq_ok.1 hrest
  refine (accepted_of_send hsend).imp ?_
  rintro _ rfl
  exact .columnar _ _ hencoded hdata

/-- An insert of encoded records that returns has them in an accepted request. -/
theorem accepted_of_insertRecords {fullTableName : String} {schema : Schema}
    {records encoded : List Record} (hencoded : records.mapM sdk.encodeRecord = .ok encoded)
    (hne : records ≠ [])
    (h : sink.insertRecords sdk fullTableName schema encoded w = (.ok n, w')) :
    World.Accepted (Request.CarriesRecords sdk schema records) w w' := by
  have hne' : encoded ≠ [] := by
    rintro rfl
    exact hne (List.forall₂_nil_right_iff.1 (mapM_eq_ok_iff.1 hencoded))
  unfold insertRecords at h
  split_ifs at h with hfast
  · have hmoves : Moves World.Extends
        (sink.bulkInsertViaClickhouseConnect sdk fullTableName schema encoded) :=
      moves_bulkInsertViaClickhouseConnect sdk sink (fun _ _ _ => extends_send _) hencoded _
    rcases handle_eq_ok.1 h with hok | ⟨e, w₁, hraised, hok⟩
    · obtain ⟨w₁, hext, hattempt⟩ := retryLoop_eq_ok hmoves hok
      exact (accepted_of_bulkInsertViaClickhouseConnect hencoded hne' hattempt).of_extends hext
        (refl_of _ w')
    · have hext := moves_withRetry sink hmoves w
      rw [hraised] at hext
      exact (accepted_of_sdkBulkInsertRecords hencoded hok).of_extends hext (refl_of _ w')
  · exact accepted_of_sdkBulkInsertRecords hencoded h

/-- A call of `bulk_insert_records` that returns has inserted its encoded records and then done what
`optimize_after` asks for. -/
theorem bulkInsertRecords_eq_ok {fullTableName : String} {schema : Schema} {records : List Record}
    (h : sink.bulkInsertRecords sdk naming fullTableName schema records w = (.ok n, w')) :
    ∃ encoded w₁, records.mapM sdk.encodeRecord = .ok encoded ∧
      sink.insertRecords sdk fullTableName schema encoded w = (.ok n, w₁) ∧
      sink.optimizeAfter naming w₁ = (.ok (), w') := by
  obtain ⟨encoded, hencoded, hrest⟩ := lift_bind_eq_ok.1 h
  obtain ⟨res, w₁, hinsert, hrest⟩ := bind_eq_ok.1 hrest
  obtain ⟨rfl, _, hopt⟩ := bind_pure_eq_ok.1 hrest
  exact ⟨encoded, w₁, hencoded, hinsert, hopt⟩

/-- A call of `bulk_insert_records` that returns has its records in an accepted request. -/
theorem accepted_of_bulkInsertRecords {fullTableName : String} {schema : Schema}
    {records : List Record} (hne : records ≠ [])
    (h : sink.bulkInsertRecords sdk naming fullTableName schema records w = (.ok n, w')) :
    World.Accepted (Request.CarriesRecords sdk schema records) w w' := by
  obtain ⟨encoded, w₁, hencoded, hinsert, hopt⟩ := bulkInsertRecords_eq_ok h
  have hafter := moves_optimizeAfter naming sink (fun _ => extends_send _) w₁
  rw [hopt] at hafter
  exact (accepted_of_insertRecords hencoded hne hinsert).of_extends (refl_of _ w) hafter

theorem toPylist_ne_nil {table : ArrowTable} (h : table.numRows ≠ 0) : table.toPylist ≠ [] := by
  simp [ArrowTable.toPylist, h]

theorem insertArrowViaRecords_spec {table : ArrowTable} (hrows : table.numRows ≠ 0)
    (h : sink.insertArrowViaRecords sdk naming (table.conform sdk) w = (.ok n, w')) :
    n = table.numRows ∧ World.Accepted (Request.Carries sdk sink.schema table) w w' := by
  obtain ⟨name, -, hrest⟩ := lift_bind_eq_ok.1 h
  obtain ⟨rfl, m, hbulk⟩ := bind_pure_eq_ok.1 hrest
  have hne : (table.conform sdk).toPylist ≠ [] := toPylist_ne_nil hrows
  exact ⟨rfl, (accepted_of_bulkInsertRecords hne hbulk).imp fun _ => .records⟩

theorem insertArrowViaClickhouseConnect_spec {table : ArrowTable}
    (h : sink.insertArrowViaClickhouseConnect naming (table.conform sdk) w = (.ok n, w')) :
    n = table.numRows ∧ World.Accepted (Request.Carries sdk sink.schema table) w w' := by
  obtain ⟨name, -, hrest⟩ := lift_bind_eq_ok.1 h
  obtain ⟨rfl, m, hsend⟩ := bind_pure_eq_ok.1 hrest
  refine ⟨rfl, (accepted_of_send hsend).imp ?_⟩
  rintro _ rfl
  exact .arrow _

theorem insertArrowViaNativeDriver_spec {table : ArrowTable}
    (h : sink.insertArrowViaNativeDriver naming (table.conform sdk) w = (.ok n, w')) :
    n = table.numRows ∧ World.Accepted (Request.Carries sdk sink.schema table) w w' := by
  obtain ⟨name, -, hrest⟩ := lift_bind_eq_ok.1 h
  obtain ⟨rfl, m, hsend⟩ := bind_pure_eq_ok.1 hrest
  refine ⟨rfl, (accepted_of_send hsend).imp ?_⟩
  rintro _ rfl
  exact .native _

/-- A call of `_insert_arrow_table` that returns reports the number of rows, which are all in an
accepted request. -/
theorem insertArrowTable_spec {table : ArrowTable}
    (h : sink.insertArrowTable sdk naming table w = (.ok n, w')) :
    n = table.numRows ∧
      (table.numRows ≠ 0 → World.Accepted (Request.Carries sdk sink.schema table) w w') := by
  unfold insertArrowTable at h
  dsimp only at h
  split_ifs at h with hrows hfast hnative
  · obtain ⟨rfl, rfl⟩ := pure_eq_ok.1 h
    exact ⟨by rw [hrows]; rfl, fun hne => absurd hrows hne⟩
  · have hmoves := moves_insertArrowViaClickhouseConnect naming sink (table.conform sdk)
      fun _ => extends_send _
    rcases handle_eq_ok.1 h with hok | ⟨e, w₃, hraised, hok⟩
    · obtain ⟨w₃, hext, hattempt⟩ := retryLoop_eq_ok hmoves hok
      obtain ⟨hn, hacc⟩ := insertArrowViaClickhouseConnect_spec hattempt
      exact ⟨hn, fun _ => hacc.of_extends hext (refl_of _ w')⟩
    · have hext := moves_withRetry sink hmoves w
      rw [hraised] at hext
      obtain ⟨hn, hacc⟩ := insertArrowViaRecords_spec hrows hok
      exact ⟨hn, fun _ => hacc.of_extends hext (refl_of _ w')⟩
  · obtain ⟨hn, hacc⟩ := insertArrowViaNativeDriver_spec h
    exact ⟨hn, fun _ => hacc⟩
  · obtain ⟨hn, hacc⟩ := insertArrowViaRecords_spec hrows h
    exact ⟨hn, fun _ => hacc⟩

end Sink

end TargetClickhouse
