import TargetClickhouse.Names
import TargetClickhouse.Records
import TargetClickhouse.Lib.Attempts
import TargetClickhouse.Lib.Effects

/-!
# Inserting a batch

The insert paths of the sink as computations over a `World`, which answers every request (an insert,
an `OPTIMIZE`, a file operation) with the next outcome of its script and logs the two.

`climbs_bulkInsertRecords` and `climbs_insertArrowTable` say which outcomes a call consumes for
inserts: those of a ladder of stages, one for every insert path that it falls back on.
`atMostOnce_iff` concludes for which scripts no call applies a batch twice.
-/

namespace TargetClickhouse

open Effects Effects.Proc Attempts Dict

/-! ## Requests and outcomes -/

inductive Request where
  /-- `insert` of the clickhouse-connect client, with column-oriented data. -/
  | insert (table : TableRef) (columns : List String) (data : List (List Value))
      (settings : Option (List (String × ℕ)))
  /-- `insert_arrow` of the clickhouse-connect client. -/
  | insertArrow (table : TableRef) (arrow : ArrowTable)
  /-- The insert statement of the SDK. -/
  | sqlInsert (fullTableName : String) (rows : List Record)
  /-- `execute` of the clickhouse-driver client, with `columnar=True`. -/
  | nativeInsert (table : TableRef) (columns : List String) (data : List (List Value))
  | optimize (table : TableRef)
  | readFile (path : String)
  | removeFile (path : String)

namespace Request

def isInsert : Request → Bool
  | .insert .. => true
  | .insertArrow .. => true
  | .sqlInsert .. => true
  | .nativeInsert .. => true
  | .optimize .. => false
  | .readFile .. => false
  | .removeFile .. => false

end Request

/-- How the environment answers a request: it accepts it and reports a row count, the connection
could not be established, or another exception is raised, which for an insert may come with the
rows applied. -/
inductive Outcome where
  | returned (rowcount : ℤ)
  | connectionError (id : ℕ)
  | failed (id : ℕ) (applied : Bool)
  deriving DecidableEq, Repr

namespace Outcome

def isReturned : Outcome → Bool
  | .returned _ => true
  | _ => false

/-- The rows of the insert are in the table. -/
def applied : Outcome → Bool
  | .returned _ => true
  | .connectionError _ => false
  | .failed _ applied => applied

def isConnectionError : Outcome → Bool
  | .connectionError _ => true
  | _ => false

def toRes : Outcome → Res Exn ℤ
  | .returned rowcount => .ok rowcount
  | .connectionError id => .raised (.connectionError id)
  | .failed id _ => .raised (.other id)

/-- Only connection errors are retried, and they have no effect. -/
def reading : Reading Outcome where
  returned := isReturned
  applied := applied
  listed := isConnectionError
  applied_of_returned := by rintro (_ | _ | _) h <;> simp_all [isReturned, applied]
  not_applied_of_listed := by rintro (_ | _ | _) h <;> simp_all [isConnectionError, applied]

end Outcome

theorem Outcome.reading_returned : reading.returned = isReturned := rfl

structure World where
  /-- The outcomes of the coming requests. -/
  script : List Outcome
  log : List (Request × Outcome)
  files : List (String × ArrowTable)

/-- A step of the target. -/
abbrev Step (α : Type) : Type := Proc World Exn α

namespace World

variable (w : World)

/-- The world after it answered the request with the first outcome of its script. -/
def answer (request : Request) (o : Outcome) (rest : List Outcome) : World :=
  { w with script := rest, log := w.log ++ [(request, o)] }

/-- The outcomes of the inserts so far. -/
def insertOutcomes : List Outcome := (w.log.filter fun e => e.1.isInsert).map Prod.snd

end World

/-- Send a request and wait for its outcome. -/
def send (request : Request) : Step ℤ := fun w =>
  match w.script with
  | [] => (.pending, w)
  | o :: rest => (o.toRes, w.answer request o rest)

/-! ## Insert paths -/

section Paths

variable (sdk : Sdk) (naming : Naming) (sink : Sink)

namespace Sink

/-- `settings or None`. -/
def insertSettings : Option (List (String × ℕ)) :=
  if sink.config.asyncInsert.getD false then
    some [("async_insert", 1), ("wait_for_async_insert", 1)]
  else none

/-- A clickhouse-connect insert with the retries of `backoff`. -/
def withRetry {α : Type} (attempt : Step α) : Step α := fun w =>
  retryLoop retryableInsertException sink.config.maxTries attempt (w.script.length + 1) 1 w

/-- `_bulk_insert_via_clickhouse_connect`. -/
def bulkInsertViaClickhouseConnect (fullTableName : String) (schema : Schema)
    (records : List Record) : Step ℤ :=
  if records = [] then pure 0
  else do
    let (columns, data) ← lift (sdk.columnData schema records)
    let table := Statement.fastInsert.tableRef fullTableName
    let _ ← send (.insert table columns data sink.insertSettings)
    return records.length

/-- `bulk_insert_records` of the SDK's `SQLSink`. -/
def sdkBulkInsertRecords (fullTableName : String) (schema : Schema) (records : List Record) :
    Step ℤ := do
  let rows ← lift (sdk.sqlRows schema records)
  send (.sqlInsert fullTableName rows)

/-- `OPTIMIZE TABLE`, when `optimize_after` is set. -/
def optimizeAfter : Step Unit :=
  if sink.config.optimizeAfter.getD false then do
    let name ← lift sink.fullTableName
    let _ ← send (.optimize (Statement.optimize.tableRef (name.toText naming)))
    return ()
  else pure ()

/-- The insert of `bulk_insert_records`: the fast path with its fallback, or the SDK's insert. -/
def insertRecords (fullTableName : String) (schema : Schema) (records : List Record) : Step ℤ :=
  if sink.config.useClickhouseConnect then
    handle (sink.withRetry (sink.bulkInsertViaClickhouseConnect sdk fullTableName schema records))
      fun _ => sdkBulkInsertRecords sdk fullTableName schema records
  else sdkBulkInsertRecords sdk fullTableName schema records

/-- `bulk_insert_records`. -/
def bulkInsertRecords (fullTableName : String) (schema : Schema) (records : List Record) :
    Step ℤ := do
  let records ← lift (records.mapM sdk.encodeRecord)
  let res ← sink.insertRecords sdk fullTableName schema records
  sink.optimizeAfter naming
  return res

/-- `_insert_arrow_via_clickhouse_connect`. -/
def insertArrowViaClickhouseConnect (table : ArrowTable) : Step ℤ := do
  let name ← lift sink.fullTableName
  let _ ← send (.insertArrow (Statement.fastArrowInsert.tableRef (name.toText naming)) table)
  return table.numRows

/-- `_insert_arrow_via_native_driver`. -/
def insertArrowViaNativeDriver (table : ArrowTable) : Step ℤ := do
  let name ← lift sink.fullTableName
  let _ ← send (.nativeInsert (Statement.nativeInsert.tableRef (name.toText naming)) table.names
    table.columns)
  return table.numRows

/-- The generic path of an Arrow table: `to_pylist` and `bulk_insert_records`. -/
def insertArrowViaRecords (table : ArrowTable) : Step ℤ := do
  let name ← lift sink.fullTableName
  let _ ← sink.bulkInsertRecords sdk naming (name.toText naming) sink.schema table.toPylist
  return table.numRows

/-- `_insert_arrow_table`. -/
def insertArrowTable (table : ArrowTable) : Step ℤ :=
  if table.numRows = 0 then pure 0
  else
    let table := table.conform sdk
    if sink.config.useClickhouseConnect then
      handle (sink.withRetry (sink.insertArrowViaClickhouseConnect naming table))
        fun _ => sink.insertArrowViaRecords sdk naming table
    else if sink.config.useNativeDriver then sink.insertArrowViaNativeDriver naming table
    else sink.insertArrowViaRecords sdk naming table

end Sink

end Paths

/-! ## The inserts of a call -/

namespace World

/-- The inserts logged so far are the same. -/
def SameInserts (w w' : World) : Prop := w'.insertOutcomes = w.insertOutcomes

instance : IsPreorder World SameInserts where
  refl _ := rfl
  trans _ _ _ h₁ h₂ := Eq.trans h₂ h₁

theorem insertOutcomes_answer (w : World) (request : Request) (o : Outcome) (rest : List Outcome) :
    (w.answer request o rest).insertOutcomes =
      w.insertOutcomes ++ if request.isInsert then [o] else [] := by
  by_cases h : request.isInsert = true <;>
    simp [insertOutcomes, answer, List.filter_append, h]

end World

theorem send_nil {w : World} (h : w.script = []) (request : Request) :
    send request w = (.pending, w) := by
  simp [send, h]

theorem send_cons {w : World} {o : Outcome} {rest : List Outcome} (h : w.script = o :: rest)
    (request : Request) : send request w = (o.toRes, w.answer request o rest) := by
  simp [send, h]

theorem send_eq_ok {request : Request} {w w' : World} {n : ℤ} :
    send request w = (.ok n, w') ↔
      ∃ rest, w.script = .returned n :: rest ∧ w.answer request (.returned n) rest = w' := by
  cases hs : w.script with
  | nil => simp [send_nil hs]
  | cons o rest =>
    rw [send_cons hs]
    cases o with
    | returned m =>
      by_cases hm : m = n
      · simp [Outcome.toRes, hm]
      · simp [Outcome.toRes, hm]
    | connectionError id => simp [Outcome.toRes]
    | failed id applied => simp [Outcome.toRes]

/-- A request changes the world only by being answered. -/
theorem moves_send {R : World → World → Prop} [IsPreorder World R] {request : Request}
    (h : ∀ w o rest, R w (w.answer request o rest)) : Moves R (send request) := by
  intro w
  cases hs : w.script with
  | nil =>
    rw [send_nil hs]
    exact refl_of R w
  | cons o rest =>
    rw [send_cons hs]
    exact h w o rest

theorem sameInserts_send {request : Request} (h : request.isInsert = false) :
    Moves World.SameInserts (send request) :=
  moves_send fun w o rest => (w.insertOutcomes_answer request o rest).trans (by simp [h])

/-- An attempt to send a request, which returns `a` when the request is accepted. -/
def attempt {α : Type} (request : Request) (a : α) : Step α := do
  let _ ← send request
  return a

theorem attempt_nil {α : Type} {w : World} (h : w.script = []) (request : Request) (a : α) :
    attempt request a w = (.pending, w) :=
  bind_of_pending (send_nil h request)

theorem attempt_cons {α : Type} {w : World} {o : Outcome} {rest : List Outcome}
    (h : w.script = o :: rest) (request : Request) (a : α) :
    attempt request a w = match o with
      | .returned _ => (.ok a, w.answer request o rest)
      | .connectionError id => (.raised (.connectionError id), w.answer request o rest)
      | .failed id _ => (.raised (.other id), w.answer request o rest) := by
  have hsend := send_cons h request
  cases o with
  | returned n => exact bind_of_ok hsend
  | connectionError id => exact bind_of_raised hsend
  | failed id applied => exact bind_of_raised hsend

/-- How attempts that consumed the outcomes `os`, and left `rest`, stop. -/
def Ended {α : Type} (a : α) (os rest : List Outcome) : Res Exn α → Prop
  | .ok b => b = a ∧ os.getLast?.any Outcome.isReturned = true
  | .raised _ => os.getLast?.any Outcome.isReturned = false
  | .pending => os.getLast?.any Outcome.isReturned = false ∧ rest = []

theorem Ended.cons {α : Type} {a : α} {o : Outcome} {os rest : List Outcome} {res : Res Exn α}
    (ho : o.isReturned = false) (h : Ended a os rest res) : Ended a (o :: os) rest res := by
  have hlast : (o :: os).getLast?.any Outcome.isReturned = os.getLast?.any Outcome.isReturned := by
    rcases os with _ | ⟨o', os⟩
    · simp [ho]
    · rw [List.getLast?_cons_cons]
  unfold Ended at h ⊢
  rwa [hlast]

/-- A retried insert consumes the outcomes of a loop. -/
theorem retryLoop_attempt {α : Type} {request : Request} (hr : request.isInsert = true)
    (maxTries : Option ℤ) (a : α) {fuel : ℕ} (tries : ℕ) {w : World}
    (hfuel : w.script.length < fuel) {res : Res Exn α} {w' : World}
    (h : retryLoop retryableInsertException maxTries (attempt request a) fuel tries w = (res, w')) :
    w'.insertOutcomes = w.insertOutcomes ++ (loop Outcome.reading maxTries tries w.script).1 ∧
      w'.script = (loop Outcome.reading maxTries tries w.script).2 ∧
      Ended a (loop Outcome.reading maxTries tries w.script).1 w'.script res := by
  induction fuel generalizing tries w with
  | zero => omega
  | succ fuel ih =>
    rw [retryLoop_succ] at h
    rcases hs : w.script with _ | ⟨o, rest⟩
    · rw [attempt_nil hs] at h
      obtain ⟨rfl, rfl⟩ : Res.pending = res ∧ w = w' := by simpa using h
      simp [loop, hs, Ended]
    · have hans := w.insertOutcomes_answer request o rest
      rw [if_pos hr] at hans
      rw [attempt_cons hs] at h
      cases o with
      | returned n =>
        obtain ⟨rfl, rfl⟩ : Res.ok a = res ∧ _ = w' := by simpa using h
        rw [loop_cons_of_end (by simp [Outcome.reading, Outcome.isConnectionError])]
        exact ⟨hans, rfl, rfl, rfl⟩
      | failed id applied =>
        obtain ⟨rfl, rfl⟩ : Res.raised (.other id) = res ∧ _ = w' := by
          simpa [retryableInsertException] using h
        rw [loop_cons_of_end (by simp [Outcome.reading, Outcome.isConnectionError])]
        exact ⟨hans, rfl, rfl⟩
      | connectionError id =>
        by_cases hgive : maxTries = some (tries : ℤ)
        · -- the attempt number `maxTries` is the last
          obtain ⟨rfl, rfl⟩ : Res.raised (.connectionError id) = res ∧ _ = w' := by
            simpa [hgive] using h
          rw [loop_cons_of_end (by simp [hgive])]
          exact ⟨hans, rfl, rfl⟩
        · have hlisted : Outcome.reading.listed (.connectionError id) ∧
              maxTries ≠ some (tries : ℤ) := ⟨rfl, hgive⟩
          simp only [retryableInsertException, ne_eq, hgive, not_false_eq_true, and_self,
            if_true] at h
          rw [hs, List.length_cons] at hfuel
          obtain ⟨hins, hscript, hended⟩ := ih (tries + 1) (by simp only [World.answer]; omega) h
          rw [loop_cons_of_listed hlisted]
          refine ⟨?_, hscript, hended.cons rfl⟩
          rw [hins, hans, List.append_assoc]
          rfl

/-- The inserts of the step consume the outcomes of a ladder. -/
def Climbs {α : Type} (sink : Sink) (stages : List Stage) (m : Step α) : Prop :=
  ∀ w, (m w).2.insertOutcomes =
    w.insertOutcomes ++ ladder Outcome.reading sink.config.maxTries stages w.script

section Climbs

variable {sink : Sink} {α β : Type}

theorem climbs_nil_iff {m : Step α} : Climbs sink [] m ↔ Moves World.SameInserts m := by
  simp [Climbs, ladder, Moves, World.SameInserts]

theorem climbs_lift_error (e : Exn) {f : β → Step α} :
    Climbs sink [] (lift (.error e) >>= f) := by
  rw [climbs_nil_iff]
  exact fun w => refl_of _ w

theorem Climbs.bind {stages : List Stage} {m : Step α} {f : α → Step β} (hm : Climbs sink stages m)
    (hf : ∀ a, Moves World.SameInserts (f a)) : Climbs sink stages (m >>= f) := by
  intro w
  have h := hm w
  rw [bind_apply]
  rcases hs : m w with ⟨a | e | _, w'⟩ <;> rw [hs] at h
  · exact (hf a w').trans h
  · exact h
  · exact h

theorem climbs_send {request : Request} (hr : request.isInsert = true) :
    Climbs sink [.single] (send request) := by
  intro w
  rcases hs : w.script with _ | ⟨o, rest⟩
  · rw [send_nil hs, ladder_nil, List.append_nil]
  · have hans := w.insertOutcomes_answer request o rest
    rw [if_pos hr] at hans
    rw [send_cons hs]
    refine hans.trans ?_
    simp [ladder, Stage.attempts]

/-- A retried insert with a fallback is one more stage. -/
theorem climbs_fallback {stages : List Stage} {request : Request} (hr : request.isInsert = true)
    (a : α) {fallback : Exn → Step α} (hf : ∀ e, Climbs sink stages (fallback e)) :
    Climbs sink (.retried :: stages) (handle (sink.withRetry (attempt request a)) fallback) := by
  intro w
  rw [handle_apply]
  rcases h : sink.withRetry (attempt request a) w with ⟨res, w'⟩
  obtain ⟨hins, hscript, hended⟩ := retryLoop_attempt hr sink.config.maxTries a 1
    (Nat.lt_succ_self _) h
  rw [ladder, Stage.endsWith, Stage.attempts, ← List.append_assoc, ← hins, ← hscript]
  cases res with
  | ok b =>
    have hlast := hended.2
    simp [Outcome.reading_returned, hlast]
  | raised e =>
    have hlast : Option.any _ _ = false := hended
    simp [Outcome.reading_returned, hlast, hf e w']
  | pending => simp [hended.2, ladder_nil]

end Climbs

namespace Sink

variable (sdk : Sdk) (sink : Sink)

/-- The stages in which `bulk_insert_records` sends the records: none when they cannot be brought
into rows, or when the fast path finds that there are none. -/
def recordStages (schema : Schema) (records : List Record) : List Stage :=
  match records.mapM sdk.encodeRecord with
  | .error _ => []
  | .ok records =>
      match sdk.conformBatch schema records with
      | .error _ => []
      | .ok _ =>
          if sink.config.useClickhouseConnect then
            if records = [] then [] else [.retried, .single]
          else [.single]

/-- The stages in which `_insert_arrow_table` sends the table. -/
def arrowStages (table : ArrowTable) : List Stage :=
  if table.numRows = 0 then []
  else
    match sink.fullTableName with
    | .error _ => []
    | .ok _ =>
        let generic := sink.recordStages sdk sink.schema (table.conform sdk).toPylist
        if sink.config.useClickhouseConnect then .retried :: generic
        else if sink.config.useNativeDriver then [.single]
        else generic

variable {sdk sink} {naming : Naming}

theorem sameInserts_optimizeAfter : Moves World.SameInserts (sink.optimizeAfter naming) := by
  unfold optimizeAfter
  split_ifs
  · refine Moves.bind (moves_lift _) fun name => ?_
    exact Moves.bind (sameInserts_send rfl) fun _ => moves_pure ()
  · exact moves_pure ()

variable (sink) in
/-- The retries keep what every attempt keeps. -/
theorem moves_withRetry {R : World → World → Prop} [IsPreorder World R] {α : Type} {m : Step α}
    (h : Moves R m) : Moves R (sink.withRetry m) := fun w =>
  h.retryLoop _ _ _ _ w

theorem withRetry_pure {α : Type} (a : α) : sink.withRetry (pure a) = pure a := by
  funext w
  rw [withRetry, retryLoop_succ, pure_apply]

/-- A batch that cannot be conformed is not sent. -/
theorem sameInserts_insertRecords {fullTableName : String} {schema : Schema}
    {records : List Record} {e : Exn} (h : sdk.conformBatch schema records = .error e) :
    Moves World.SameInserts (sink.insertRecords sdk fullTableName schema records) := by
  have hsdk : Moves World.SameInserts (sdkBulkInsertRecords sdk fullTableName schema records) := by
    rw [sdkBulkInsertRecords, Sdk.sqlRows, h]
    exact moves_raise e
  have hfast : Moves World.SameInserts
      (sink.bulkInsertViaClickhouseConnect sdk fullTableName schema records) := by
    unfold bulkInsertViaClickhouseConnect
    split_ifs
    · exact moves_pure 0
    · rw [Sdk.columnData, h]
      exact moves_raise e
  unfold insertRecords
  split_ifs
  · exact (moves_withRetry sink hfast).handle fun _ => hsdk
  · exact hsdk

theorem climbs_insertRecords {fullTableName : String} {schema : Schema}
    {records conformed : List Record} {columns : List String}
    (h : sdk.conformBatch schema records = .ok (columns, conformed)) :
    Climbs sink
      (if sink.config.useClickhouseConnect then
        if records = [] then [] else [.retried, .single]
      else [.single])
      (sink.insertRecords sdk fullTableName schema records) := by
  have hsdk : Climbs sink [.single] (sdkBulkInsertRecords sdk fullTableName schema records) := by
    rw [sdkBulkInsertRecords, Sdk.sqlRows, h]
    exact climbs_send rfl
  unfold insertRecords
  split_ifs with hfast hnil
  · rw [bulkInsertViaClickhouseConnect, if_pos hnil, withRetry_pure, climbs_nil_iff]
    exact fun w => refl_of _ w
  · rw [bulkInsertViaClickhouseConnect, if_neg hnil, Sdk.columnData, h]
    exact climbs_fallback rfl _ fun _ => hsdk
  · exact hsdk

/-- `bulk_insert_records` consumes the outcomes of the ladder of its stages. -/
theorem climbs_bulkInsertRecords (fullTableName : String) (schema : Schema)
    (records : List Record) :
    Climbs sink (sink.recordStages sdk schema records)
      (sink.bulkInsertRecords sdk naming fullTableName schema records) := by
  unfold recordStages bulkInsertRecords
  rcases records.mapM sdk.encodeRecord with e | records
  · exact climbs_lift_error e
  · rw [lift_ok_bind]
    refine Climbs.bind ?_ fun res => Moves.bind sameInserts_optimizeAfter fun _ => moves_pure res
    dsimp only
    rcases h : sdk.conformBatch schema records with e | ⟨columns, conformed⟩
    · exact climbs_nil_iff.2 (sameInserts_insertRecords h)
    · exact climbs_insertRecords h

/-- `_insert_arrow_table` consumes the outcomes of the ladder of its stages. -/
theorem climbs_insertArrowTable (table : ArrowTable) :
    Climbs sink (sink.arrowStages sdk table) (sink.insertArrowTable sdk naming table) := by
  unfold arrowStages insertArrowTable
  by_cases hrows : table.numRows = 0
  · rw [if_pos hrows, if_pos hrows, climbs_nil_iff]
    exact moves_pure 0
  · rw [if_neg hrows, if_neg hrows]
    dsimp only
    rcases hname : sink.fullTableName with e | name
    · -- without a table name, every path raises before it sends
      have hfast : Moves World.SameInserts
          (sink.insertArrowViaClickhouseConnect naming (table.conform sdk)) := by
        rw [insertArrowViaClickhouseConnect, hname]
        exact moves_raise e
      have hgeneric : Moves World.SameInserts
          (sink.insertArrowViaRecords sdk naming (table.conform sdk)) := by
        rw [insertArrowViaRecords, hname]
        exact moves_raise e
      rw [climbs_nil_iff]
      split_ifs
      · exact (moves_withRetry sink hfast).handle fun _ => hgeneric
      · rw [insertArrowViaNativeDriver, hname]
        exact moves_raise e
      · exact hgeneric
    · have hgeneric : Climbs sink
          (sink.recordStages sdk sink.schema (table.conform sdk).toPylist)
          (sink.insertArrowViaRecords sdk naming (table.conform sdk)) := by
        rw [insertArrowViaRecords, hname, lift_ok_bind]
        exact Climbs.bind (climbs_bulkInsertRecords _ _ _) fun _ => moves_pure _
      split_ifs with hfast hnative
      · rw [insertArrowViaClickhouseConnect, hname]
        exact climbs_fallback rfl _ fun _ => hgeneric
      · rw [insertArrowViaNativeDriver, hname, lift_ok_bind]
        exact Climbs.bind (climbs_send rfl) fun _ => moves_pure _
      · exact hgeneric

end Sink

/-! ## At most once -/

/-- The step applies the rows of its inserts at most once. -/
def AtMostOnce {α : Type} (m : Step α) (script : List Outcome) : Prop :=
  (m ⟨script, [], []⟩).2.insertOutcomes.countP Outcome.applied ≤ 1

theorem Climbs.noResend_iff {α : Type} {sink : Sink} {stages : List Stage} {m : Step α}
    (h : Climbs sink stages m) (script : List Outcome) :
    AtMostOnce m script ↔ NoResend Outcome.reading sink.config.maxTries stages script := by
  rw [AtMostOnce, h, ← count_ladder_le_one_iff]
  exact Iff.rfl

/-- A call applies its batch at most once exactly when no insert that failed after its rows were
applied is followed by another insert that applies them. -/
theorem atMostOnce_iff (sdk : Sdk) (naming : Naming) (sink : Sink) (script : List Outcome) :
    (∀ (fullTableName : String) (schema : Schema) (records : List Record),
      AtMostOnce (sink.bulkInsertRecords sdk naming fullTableName schema records) script ↔
        NoResend Outcome.reading sink.config.maxTries (sink.recordStages sdk schema records)
          script) ∧
    (∀ table : ArrowTable,
      AtMostOnce (sink.insertArrowTable sdk naming table) script ↔
        NoResend Outcome.reading sink.config.maxTries (sink.arrowStages sdk table) script) := by
  constructor
  · intro fullTableName schema records
    exact (sink.climbs_bulkInsertRecords fullTableName schema records).noResend_iff script
  · intro table
    exact (sink.climbs_insertArrowTable table).noResend_iff script

/-- A fast insert that times out after the server took its rows is sent again. -/
theorem not_atMostOnce_fallback :
    let sink : Sink := ⟨{}, .object [("id", .typed (.one .integer) none)], "users", none⟩
    ¬ AtMostOnce (sink.bulkInsertRecords .verbatim .identifiers "users" sink.schema
      [[("id", .int 1)]]) [.failed 0 true, .returned (-1)] := by
  unfold AtMostOnce
  decide

end TargetClickhouse
