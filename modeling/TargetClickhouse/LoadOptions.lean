import TargetClickhouse.Delivery

/-!
# The load options

`optimize_after` asks for an `OPTIMIZE` after the insert that delivers the rows, `async_insert` for
the settings of an asynchronous insert.  `loadOptionsApply_iff` says on which insert paths they are
heeded: on every path of `bulk_insert_records`, but not by the Arrow inserts.
-/

namespace TargetClickhouse

open Effects Effects.Proc Attempts

namespace Request

/-- An insert through the clickhouse-connect client. -/
def viaClickhouseConnect : Request → Bool
  | .insert .. => true
  | .insertArrow .. => true
  | _ => false

/-- The settings of the insert. -/
def settings : Request → List (String × ℕ)
  | .insert _ _ _ settings => settings.getD []
  | _ => []

/-- An insert through the clickhouse-connect client is asynchronous, and waits for its end. -/
def AsyncIfConnect (request : Request) : Prop :=
  request.viaClickhouseConnect = true →
    ("async_insert", 1) ∈ request.settings ∧ ("wait_for_async_insert", 1) ∈ request.settings

end Request

namespace World

variable {p q : Request → Prop} {w w₁ w' : World}

/-- After a request with the property was accepted, the table was optimized. -/
def OptimizedAfter (p : Request → Prop) (table : TableRef) (w w' : World) : Prop :=
  ∃ request rowcount log rest, p request ∧ w.log <+: log ∧
    w'.log = log ++ [(request, Outcome.returned rowcount)] ++ rest ∧
    ∃ o, (Request.optimize table, o) ∈ rest

theorem OptimizedAfter.of_accepted {table : TableRef} {o : Outcome} (h : Accepted p w w₁)
    (hlog : w'.log = w₁.log ++ [(.optimize table, o)]) : OptimizedAfter p table w w' := by
  obtain ⟨request, n, log, hp, hpre, rest, hrest⟩ := h
  refine ⟨request, n, log, rest ++ [(.optimize table, o)], hp, hpre, ?_, o, ?_⟩
  · rw [hlog, ← hrest, List.append_assoc]
  · exact List.mem_append_right _ List.mem_cons_self

theorem OptimizedAfter.of_later {table : TableRef} (h : OptimizedAfter p table w₁ w')
    (hlog : w.log <+: w₁.log) : OptimizedAfter p table w w' := by
  obtain ⟨request, n, log, rest, hp, hpre, hrest⟩ := h
  exact ⟨request, n, log, rest, hp, hlog.trans hpre, hrest⟩

theorem OptimizedAfter.imp {table : TableRef} (h : OptimizedAfter p table w w')
    (hpq : ∀ request, p request → q request) : OptimizedAfter q table w w' := by
  obtain ⟨request, n, log, rest, hp, hrest⟩ := h
  exact ⟨request, n, log, rest, hpq request hp, hrest⟩

/-- Without an `OPTIMIZE` among the requests sent, the table was not optimized. -/
theorem not_optimizedAfter {table : TableRef} (h : Sends q w w') (hq : ¬ q (.optimize table)) :
    ¬ OptimizedAfter p table w w' := by
  rintro ⟨request, n, log, rest, -, ⟨sent, hsent⟩, hrest, o, ho⟩
  have hlog : w'.log = w.log ++ (sent ++ [(request, .returned n)] ++ rest) := by
    rw [hrest, ← hsent]
    simp only [List.append_assoc]
  exact hq (h.forall_of_log hlog (.optimize table, o) (List.mem_append_right _ ho))

end World

theorem log_of_send {request : Request} {w w' : World} {n : ℤ}
    (h : send request w = (.ok n, w')) : ∃ o, w'.log = w.log ++ [(request, o)] := by
  obtain ⟨rest, -, rfl⟩ := send_eq_ok.1 h
  exact ⟨.returned n, rfl⟩

namespace Sink

/-- What the load options ask for has happened between the two worlds; `p` holds of the requests
that deliver the rows. -/
structure LoadOptionsApply (naming : Naming) (sink : Sink) (p : Request → Prop) (w w' : World) :
    Prop where
  optimized : sink.config.optimizeAfter.getD false = true → ∃ name,
    sink.fullTableName = .ok name ∧
      w.OptimizedAfter p (Statement.optimize.tableRef (name.toText naming)) w'
  async : sink.config.asyncInsert.getD false = true → w.Sends Request.AsyncIfConnect w'

/-- The fast Arrow insert returns on one of its attempts. -/
def FastArrowReturns (sink : Sink) (script : List Outcome) : Prop :=
  Stage.retried.endsWith Outcome.reading sink.config.maxTries script Outcome.isReturned = true

variable {sdk : Sdk} {naming : Naming} {sink : Sink} {w w' : World} {n : ℤ}

theorem optimizeAfter_eq_ok (hoption : sink.config.optimizeAfter.getD false = true)
    (h : sink.optimizeAfter naming w = (.ok (), w')) :
    ∃ name o, sink.fullTableName = .ok name ∧
      w'.log = w.log ++ [(.optimize (Statement.optimize.tableRef (name.toText naming)), o)] := by
  rw [optimizeAfter, if_pos hoption] at h
  obtain ⟨name, hname, hrest⟩ := lift_bind_eq_ok.1 h
  obtain ⟨-, m, hsend⟩ := bind_pure_eq_ok.1 hrest
  obtain ⟨o, hlog⟩ := log_of_send hsend
  exact ⟨name, o, hname, hlog⟩

/-- The requests of `bulk_insert_records` heed `async_insert`. -/
theorem asyncIfConnect_of_issued (hoption : sink.config.asyncInsert.getD false = true)
    {request : Request} (h : request.IssuedForRecords sink) : request.AsyncIfConnect := by
  intro hconnect
  cases request with
  | insert table columns data settings =>
    obtain rfl : settings = sink.insertSettings := h
    rw [Request.settings, insertSettings, if_pos hoption]
    decide
  | insertArrow => exact absurd h id
  | _ => cases hconnect

/-- `bulk_insert_records` heeds the load options. -/
theorem loadOptionsApply_bulkInsertRecords {fullTableName : String} {schema : Schema}
    {records : List Record} (hne : records ≠ [])
    (h : sink.bulkInsertRecords sdk naming fullTableName schema records w = (.ok n, w')) :
    sink.LoadOptionsApply naming (Request.CarriesRecords sdk schema records) w w' := by
  refine ⟨fun hoption => ?_, fun hoption => ?_⟩
  · obtain ⟨encoded, w₁, hencoded, hinsert, hopt⟩ := bulkInsertRecords_eq_ok h
    obtain ⟨name, o, hname, hlog⟩ := optimizeAfter_eq_ok hoption hopt
    exact ⟨name, hname, .of_accepted (accepted_of_insertRecords hencoded hne hinsert) hlog⟩
  · have hsends : Moves (World.Sends Request.AsyncIfConnect)
        (sink.bulkInsertRecords sdk naming fullTableName schema records) :=
      moves_bulkInsertRecords sdk naming sink
        (fun _ hissued _ => sends_send (asyncIfConnect_of_issued hoption hissued)) fullTableName
    have hw := hsends w
    rwa [h] at hw

/-- A retried request was sent at least once. -/
theorem log_of_withRetry {α : Type} {request : Request} {a : α} {res : Res Exn α}
    (h : sink.withRetry (attempt request a) w = (res, w')) (hres : res ≠ .pending) :
    ∃ o, w.log ++ [(request, o)] <+: w'.log := by
  have hmoves : Moves World.Extends (attempt request a) :=
    (extends_send request).bind fun _ => moves_pure a
  rw [withRetry, retryLoop_succ] at h
  cases hs : w.script with
  | nil =>
    rw [attempt_nil hs] at h
    exact absurd (Prod.mk.inj h).1.symm hres
  | cons o rest =>
    refine ⟨o, ?_⟩
    rw [attempt_cons hs] at h
    cases o with
    | returned m =>
      obtain ⟨-, rfl⟩ := Prod.mk.inj h
      exact List.prefix_rfl
    | failed id applied =>
      obtain ⟨-, rfl⟩ : _ ∧ w.answer request (.failed id applied) rest = w' := by
        simpa [retryableInsertException] using h
      exact List.prefix_rfl
    | connectionError id =>
      dsimp only at h
      split_ifs at h
      · have hext := hmoves.retryLoop retryableInsertException sink.config.maxTries
          w.script.length 2 (w.answer request (.connectionError id) rest)
        rw [h] at hext
        exact hext.2
      · obtain ⟨-, rfl⟩ := Prod.mk.inj h
        exact List.prefix_rfl

/-- What the fast Arrow insert sends, and when it returns. -/
theorem fastArrow_spec {table : ArrowTable} {name : TableName} {res : Res Exn ℤ}
    (hname : sink.fullTableName = .ok name)
    (h : sink.withRetry (sink.insertArrowViaClickhouseConnect naming table) w = (res, w'))
    (hres : res ≠ .pending) :
    (sink.FastArrowReturns w.script ↔ ∃ n, res = .ok n) ∧
      (∃ o, w.log ++ [(.insertArrow (Statement.fastArrowInsert.tableRef (name.toText naming))
        table, o)] <+: w'.log) ∧
      w.Sends (fun request => request.isInsert = true) w' := by
  have hsends := moves_withRetry sink (moves_insertArrowViaClickhouseConnect naming sink table
    fun _ => sends_send (p := fun request => request.isInsert = true) rfl) w
  rw [h] at hsends
  rw [insertArrowViaClickhouseConnect, hname] at h
  refine ⟨?_, log_of_withRetry h hres, hsends⟩
  obtain ⟨-, -, hended⟩ := retryLoop_attempt rfl sink.config.maxTries _ 1 (Nat.lt_succ_self _) h
  unfold FastArrowReturns Stage.endsWith Stage.attempts
  cases res with
  | ok m => exact iff_of_true hended.2 ⟨m, rfl⟩
  | raised e =>
    have hlast : Option.any _ _ = false := hended
    rw [hlast]
    simp
  | pending => exact absurd rfl hres

theorem not_sends_asyncIfConnect {target : TableRef} {table : ArrowTable} {o : Outcome}
    (h : w.log ++ [(.insertArrow target table, o)] <+: w'.log) :
    ¬ w.Sends Request.AsyncIfConnect w' := by
  intro hsends
  obtain ⟨rest, hrest⟩ := h
  rw [List.append_assoc] at hrest
  have hasync := hsends.forall_of_log hrest.symm _ (List.mem_append_left _ List.mem_cons_self)
  exact absurd (hasync rfl).1 (by simp [Request.settings])

/-- No Arrow insert heeds the options on its own: with `async_insert`, no table may be sent through
the clickhouse-connect client, and with `optimize_after`, the table has to take the path of the
records. -/
def HeedsLoadOptions (sink : Sink) (script : List Outcome) : Prop :=
  (sink.config.asyncInsert.getD false = true → sink.config.useClickhouseConnect = false) ∧
    (sink.config.optimizeAfter.getD false = true → sink.config.useNativeDriver = false ∧
      (sink.config.useClickhouseConnect = true → ¬ sink.FastArrowReturns script))

theorem loadOptionsApply_insertArrowViaRecords {table : ArrowTable} (hrows : table.numRows ≠ 0)
    (h : sink.insertArrowViaRecords sdk naming (table.conform sdk) w = (.ok n, w')) :
    sink.LoadOptionsApply naming (Request.Carries sdk sink.schema table) w w' := by
  obtain ⟨name, -, hrest⟩ := lift_bind_eq_ok.1 h
  obtain ⟨-, m, hbulk⟩ := bind_pure_eq_ok.1 hrest
  have hne : (table.conform sdk).toPylist ≠ [] := toPylist_ne_nil hrows
  have happly := loadOptionsApply_bulkInsertRecords hne hbulk
  refine ⟨fun hoption => ?_, happly.async⟩
  obtain ⟨name', hname', hopt⟩ := happly.optimized hoption
  exact ⟨name', hname', hopt.imp fun _ => .records⟩

theorem useNativeDriver_eq_false {c : Config} (h : c.useClickhouseConnect = true) :
    c.useNativeDriver = false := by
  obtain ⟨hdriver, -⟩ := Bool.and_eq_true_iff.1 h
  unfold Config.useNativeDriver
  cases hd : c.driver with
  | none => simp
  | some d =>
    obtain rfl : d = .http := by simpa [hd] using hdriver
    rfl

/-- The fast Arrow insert with its fallback. -/
theorem loadOptionsApply_fastArrow_iff {table : ArrowTable} (hrows : table.numRows ≠ 0)
    (hfast : sink.config.useClickhouseConnect = true)
    (h : handle (sink.withRetry (sink.insertArrowViaClickhouseConnect naming (table.conform sdk)))
      (fun _ => sink.insertArrowViaRecords sdk naming (table.conform sdk)) w = (.ok n, w')) :
    sink.LoadOptionsApply naming (Request.Carries sdk sink.schema table) w w' ↔
      sink.HeedsLoadOptions w.script := by
  have hnative := useNativeDriver_eq_false hfast
  have hmoves := moves_insertArrowViaClickhouseConnect naming sink (table.conform sdk)
    fun _ => extends_send _
  unfold HeedsLoadOptions
  rw [hfast, hnative]
  rcases handle_eq_ok.1 h with hok | ⟨e, w₁, hraised, hok⟩
  · -- the fast insert served the table, and nothing was sent after it
    obtain ⟨w₁, -, hattempt⟩ := retryLoop_eq_ok hmoves hok
    obtain ⟨name, hname, -⟩ := lift_bind_eq_ok.1 hattempt
    obtain ⟨hreturns, ⟨o, hlog⟩, hsends⟩ := fastArrow_spec hname hok (by simp)
    constructor
    · intro happly
      refine ⟨fun hoption => absurd (happly.async hoption) (not_sends_asyncIfConnect hlog), ?_⟩
      intro hoption
      obtain ⟨name', -, hopt⟩ := happly.optimized hoption
      exact absurd hopt (World.not_optimizedAfter hsends (by simp [Request.isInsert]))
    · rintro ⟨hasync, hopt⟩
      refine ⟨fun hoption => ?_, fun hoption => ?_⟩
      · exact absurd (hreturns.2 ⟨n, rfl⟩) ((hopt hoption).2 rfl)
      · cases hasync hoption
  · obtain ⟨name, hname, -⟩ := lift_bind_eq_ok.1 hok
    obtain ⟨hreturns, ⟨o, hlog⟩, -⟩ := fastArrow_spec hname hraised (by simp)
    have happly := loadOptionsApply_insertArrowViaRecords hrows hok
    have hext : w₁.Extends w' := by
      have hm := moves_insertArrowViaRecords sdk naming sink (table.conform sdk)
        (fun _ _ _ => extends_send _) w₁
      rwa [hok] at hm
    constructor
    · intro happly'
      refine ⟨fun hoption => ?_, fun _ => ⟨rfl, fun _ hret => ?_⟩⟩
      · exact absurd (happly'.async hoption) (not_sends_asyncIfConnect (hlog.trans hext.2))
      · obtain ⟨m, hm⟩ := hreturns.1 hret
        cases hm
    · rintro ⟨hasync, -⟩
      refine ⟨fun hoption => ?_, fun hoption => ?_⟩
      · obtain ⟨name', hname', hopt⟩ := happly.optimized hoption
        exact ⟨name', hname', hopt.of_later ((List.prefix_append _ _).trans hlog)⟩
      · cases hasync hoption

theorem loadOptionsApply_native_iff {table : ArrowTable}
    (hfast : sink.config.useClickhouseConnect = false)
    (hnative : sink.config.useNativeDriver = true)
    (h : sink.insertArrowViaNativeDriver naming (table.conform sdk) w = (.ok n, w')) :
    sink.LoadOptionsApply naming (Request.Carries sdk sink.schema table) w w' ↔
      sink.HeedsLoadOptions w.script := by
  have hinsert := moves_insertArrowViaNativeDriver naming sink (table.conform sdk)
    (fun _ => sends_send (p := fun request => request.isInsert = true) rfl) w
  have hasync := moves_insertArrowViaNativeDriver naming sink (table.conform sdk)
    (fun _ => sends_send (p := Request.AsyncIfConnect) (fun hconnect => by cases hconnect)) w
  rw [h] at hinsert hasync
  unfold HeedsLoadOptions
  rw [hfast, hnative]
  constructor
  · intro happly
    refine ⟨fun _ => rfl, fun hoption => ?_⟩
    obtain ⟨name', -, hopt⟩ := happly.optimized hoption
    exact absurd hopt (World.not_optimizedAfter hinsert (by simp [Request.isInsert]))
  · rintro ⟨-, hopt⟩
    exact ⟨fun hoption => absurd (hopt hoption).1 (by simp), fun _ => hasync⟩

theorem loadOptionsApply_insertArrowTable_iff {table : ArrowTable} (hrows : table.numRows ≠ 0)
    (h : sink.insertArrowTable sdk naming table w = (.ok n, w')) :
    sink.LoadOptionsApply naming (Request.Carries sdk sink.schema table) w w' ↔
      sink.HeedsLoadOptions w.script := by
  rw [insertArrowTable, if_neg hrows] at h
  split_ifs at h with hfast hnative
  · exact loadOptionsApply_fastArrow_iff hrows hfast h
  · exact loadOptionsApply_native_iff (by simpa using hfast) hnative h
  · refine iff_of_true (loadOptionsApply_insertArrowViaRecords hrows h) ⟨fun _ => ?_, fun _ => ?_⟩
    · simpa using hfast
    · exact ⟨by simpa using hnative, fun hconnect => absurd hconnect hfast⟩

/-- `bulk_insert_records` always heeds the load options, `_insert_arrow_table` only where it does
not use an Arrow insert that an option is about. -/
theorem loadOptionsApply_iff (sdk : Sdk) (naming : Naming) (sink : Sink) (w w' : World) (n : ℤ) :
    (∀ (fullTableName : String) (schema : Schema) (records : List Record), records ≠ [] →
      sink.bulkInsertRecords sdk naming fullTableName schema records w = (.ok n, w') →
      sink.LoadOptionsApply naming (Request.CarriesRecords sdk schema records) w w') ∧
    (∀ table : ArrowTable, table.numRows ≠ 0 →
      sink.insertArrowTable sdk naming table w = (.ok n, w') →
      (sink.LoadOptionsApply naming (Request.Carries sdk sink.schema table) w w' ↔
        sink.HeedsLoadOptions w.script)) :=
  ⟨fun _ _ _ hne h => loadOptionsApply_bulkInsertRecords hne h,
    fun _ hrows h => loadOptionsApply_insertArrowTable_iff hrows h⟩

/-- A table that takes the path of the records is optimized after its insert. -/
theorem loadOptionsApply_asynch :
    let sink : Sink := ⟨{ driver := some .asynch, optimizeAfter := some true },
      .object [("id", .typed (.one .integer) none)], "users", none⟩
    let table := ArrowTable.single "id" [.int 1]
    let w : World := ⟨[.returned (-1), .returned 0], [], []⟩
    let w' := (sink.insertArrowTable .verbatim .identifiers table w).2
    sink.LoadOptionsApply .identifiers (Request.Carries .verbatim sink.schema table) w w' := by
  intro sink table w w'
  have hok : sink.insertArrowTable .verbatim .identifiers table w = (.ok 1, w') := rfl
  have hheeds : sink.HeedsLoadOptions w.script := by
    refine ⟨fun _ => rfl, fun _ => ⟨rfl, fun hconnect => ?_⟩⟩
    cases hconnect
  exact ((loadOptionsApply_iff .verbatim .identifiers sink w w' 1).2 table (by decide) hok).2 hheeds

/-- Both options are set, and the table is sent with one fast Arrow insert. -/
theorem not_loadOptionsApply_arrow :
    let sink : Sink := ⟨{ optimizeAfter := some true, asyncInsert := some true },
      .object [("id", .typed (.one .integer) none)], "users", none⟩
    let table := ArrowTable.single "id" [.int 1]
    let w : World := ⟨[.returned 1], [], []⟩
    let w' := (sink.insertArrowTable .verbatim .identifiers table w).2
    sink.insertArrowTable .verbatim .identifiers table w = (.ok 1, w') ∧
      ¬ sink.LoadOptionsApply .identifiers (Request.Carries .verbatim sink.schema table) w w' := by
  intro sink table w w'
  have hok : sink.insertArrowTable .verbatim .identifiers table w = (.ok 1, w') := rfl
  refine ⟨hok, fun happly => ?_⟩
  have hheeds := (loadOptionsApply_insertArrowTable_iff (by decide) hok).1 happly
  exact absurd (hheeds.1 rfl) (by decide)

end Sink

end TargetClickhouse
