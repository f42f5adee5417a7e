import TargetClickhouse.Config
import TargetClickhouse.Lib.Batches
import TargetClickhouse.Lib.Runs

/-!
# The size of a batch

The sink counts the bytes of the records that it has staged beside the row count of the SDK.  The
byte count is an attribute that `process_record` and `mark_drained` create, so a new sink has none.

A read of `is_full` may fail, and the run with it.  `batchInvariant_iff` says in which runs no read
fails; in these every read is right.
-/

namespace TargetClickhouse

open Batches Runs

/-- The two counters of a sink. -/
structure BatchCounters where
  /-- The row count of the SDK. -/
  recordsRead : ℕ
  /-- `_batch_bytes`, when the sink has the attribute. -/
  batchBytes : Option ℕ
  deriving DecidableEq, Repr

/-- A record is tallied and processed, the batch is marked as drained, or `is_full` is read. -/
abbrev SinkEvent := Batches.Event Record

namespace BatchCounters

/-- A sink that was just constructed. -/
def new : BatchCounters := ⟨0, none⟩

section

variable (recordSize : Record → ℕ) (maxSize : ℤ) (c : Config) (s : BatchCounters)

/-- The SDK's `tally_record_read`. -/
def tallyRecordRead : BatchCounters := { s with recordsRead := s.recordsRead + 1 }

/-- `process_record`; `recordSize` is the length of the record's JSON text. -/
def processRecord (record : Record) : BatchCounters :=
  { s with batchBytes := some (s.batchBytes.getD 0 + recordSize record) }

/-- `mark_drained`. -/
def markDrained : BatchCounters := ⟨0, some 0⟩

/-- `is_full`; `maxSize` is the row limit of the SDK. -/
def isFull : Except Exn Bool :=
  if maxSize ≤ s.recordsRead then .ok true
  else
    match s.batchBytes, c.batchBytesLimit with
    | none, _ => .error .attributeError
    | some _, none => .error .typeError
    | some bytes, some limit => .ok (limit ≤ bytes)

/-- The counters after an event, unless it is a read that raises. -/
def step : SinkEvent → Option BatchCounters
  | .add record => some ((s.tallyRecordRead).processRecord recordSize record)
  | .drain => some markDrained
  | .read =>
      match s.isFull maxSize c with
      | .ok _ => some s
      | .error _ => none

end

end BatchCounters

/-! ## The batch -/

section

variable (recordSize : Record → ℕ) (maxSize : ℤ) (c : Config)

/-- The serialised size of a batch. -/
def serializedSize (batch : List Record) : ℕ := (batch.map recordSize).sum

/-- The batch has reached one of its limits. -/
def reachesLimit (batch : List Record) : Bool :=
  maxSize ≤ batch.length ||
    c.batchBytesLimit.any fun limit => limit ≤ (serializedSize recordSize batch : ℤ)

/-- What holds throughout a run of a new sink. -/
structure BatchInvariant (events : List SinkEvent) : Prop where
  /-- After every part of the run the byte count is the size of the batch. -/
  counts : ∀ pre, pre <+: events → ∃ s,
    run (BatchCounters.step recordSize maxSize c) .new pre = some s ∧
      s.batchBytes.getD 0 = serializedSize recordSize (current [] pre)
  /-- Every read of `is_full` says whether the batch has reached a limit. -/
  reads : ∀ pre s, pre ++ [.read] <+: events →
    run (BatchCounters.step recordSize maxSize c) .new pre = some s →
      s.isFull maxSize c = .ok (reachesLimit recordSize maxSize c (current [] pre))
  /-- When no record is added to a full batch, the batches drained exceed no limit by more than their
  last record. -/
  drains : AddsTo (fun batch => reachesLimit recordSize maxSize c batch = false) [] events →
    ∀ batch ∈ drained [] events, batch ≠ [] →
      batch.dropLast.length < maxSize ∧
        ∀ limit, c.batchBytesLimit = some limit →
          serializedSize recordSize batch.dropLast < limit

end

namespace BatchCounters

variable {recordSize : Record → ℕ} {maxSize : ℤ} {c : Config} {s s' : BatchCounters}

/-- The counters count the batch. -/
structure Counts (recordSize : Record → ℕ) (s : BatchCounters) (batch : List Record) : Prop where
  recordsRead : s.recordsRead = batch.length
  batchBytes : s.batchBytes.getD 0 = serializedSize recordSize batch

theorem Counts.processRecord {batch : List Record} (h : s.Counts recordSize batch)
    (record : Record) :
    ((s.tallyRecordRead).processRecord recordSize record).Counts recordSize
      (batch ++ [record]) := by
  refine ⟨?_, ?_⟩
  · show s.recordsRead + 1 = _
    rw [h.recordsRead, List.length_append, List.length_singleton]
  · show s.batchBytes.getD 0 + recordSize record = _
    rw [h.batchBytes, serializedSize, serializedSize, List.map_append,
      List.sum_append, List.map_singleton, List.sum_singleton]

theorem counts_markDrained : markDrained.Counts recordSize [] := ⟨rfl, rfl⟩

theorem step_read_eq_some :
    step recordSize maxSize c s .read = some s' ↔ s' = s ∧ ∃ full, s.isFull maxSize c = .ok full := by
  rw [step]
  cases s.isFull maxSize c with
  | error e => simp
  | ok full => simp [eq_comm]

/-- After the events, the counters count the batch collected so far, and the byte count exists when
some event was no read. -/
theorem counts_of_run {events : List SinkEvent} {batch : List Record}
    (h : s.Counts recordSize batch)
    (hrun : run (step recordSize maxSize c) s events = some s') :
    s'.Counts recordSize (current batch events) ∧
      (s'.batchBytes.isSome ↔ s.batchBytes.isSome ∨ ∃ e ∈ events, e ≠ .read) := by
  induction events generalizing s batch with
  | nil =>
    obtain rfl := Option.some.inj hrun
    exact ⟨h, by simp⟩
  | cons e events ih =>
    obtain ⟨s₁, hs₁, hrest⟩ := run_cons_eq_some.1 hrun
    cases e with
    | add record =>
      obtain rfl := Option.some.inj hs₁
      obtain ⟨hcounts, hsome⟩ := ih (h.processRecord record) hrest
      refine ⟨hcounts, iff_of_true (hsome.2 (Or.inl rfl)) (Or.inr ?_)⟩
      exact ⟨_, List.mem_cons_self, by simp⟩
    | drain =>
      obtain rfl := Option.some.inj hs₁
      obtain ⟨hcounts, hsome⟩ := ih counts_markDrained hrest
      refine ⟨hcounts, iff_of_true (hsome.2 (Or.inl rfl)) (Or.inr ?_)⟩
      exact ⟨_, List.mem_cons_self, by simp⟩
    | read =>
      obtain ⟨rfl, -⟩ := step_read_eq_some.1 hs₁
      obtain ⟨hcounts, hsome⟩ := ih h hrest
      refine ⟨hcounts, hsome.trans (or_congr_right ?_)⟩
      simp

/-- `is_full` compares the batch with its limits, unless it needs a byte count or a byte limit that
is not there. -/
theorem Counts.isFull_eq_iff {batch : List Record} (h : s.Counts recordSize batch) :
    s.isFull maxSize c = .ok (reachesLimit recordSize maxSize c batch) ↔
      maxSize ≤ batch.length ∨ s.batchBytes.isSome ∧ c.batchBytesLimit.isSome := by
  unfold isFull reachesLimit
  rw [h.recordsRead, ← h.batchBytes]
  by_cases hrows : maxSize ≤ batch.length
  · simp [hrows]
  · rw [if_neg hrows]
    cases s.batchBytes with
    | none => simp [hrows]
    | some bytes =>
      cases c.batchBytesLimit with
      | none => simp [hrows]
      | some limit => simp [hrows]

end BatchCounters

/-- A batch below its limits. -/
theorem reachesLimit_eq_false {recordSize : Record → ℕ} {maxSize : ℤ} {c : Config}
    {batch : List Record} (h : reachesLimit recordSize maxSize c batch = false) :
    batch.length < maxSize ∧
      ∀ limit, c.batchBytesLimit = some limit → serializedSize recordSize batch < limit := by
  rw [reachesLimit, Bool.or_eq_false_iff, decide_eq_false_iff_not] at h
  refine ⟨by omega, fun limit hlimit => ?_⟩
  have hbytes := h.2
  rw [hlimit, Option.any_some, decide_eq_false_iff_not] at hbytes
  omega

namespace BatchCounters

variable {recordSize : Record → ℕ} {maxSize : ℤ} {c : Config} {s : BatchCounters}
  {events : List SinkEvent}

theorem counts_of_run_new (hrun : run (step recordSize maxSize c) .new events = some s) :
    s.Counts recordSize (current [] events) := by
  have hnew : BatchCounters.new.Counts recordSize [] := ⟨rfl, rfl⟩
  exact (counts_of_run hnew hrun).1

/-- When a read of the sink is right, after the events that it has seen. -/
theorem isFull_eq_iff_of_run (hrun : run (step recordSize maxSize c) .new events = some s) :
    s.isFull maxSize c = .ok (reachesLimit recordSize maxSize c (current [] events)) ↔
      maxSize ≤ (current [] events).length ∨
        (∃ e ∈ events, e ≠ .read) ∧ c.batchBytesLimit.isSome := by
  have hnew : BatchCounters.new.Counts recordSize [] := ⟨rfl, rfl⟩
  obtain ⟨hcounts, hsome⟩ := counts_of_run hnew hrun
  rw [hcounts.isFull_eq_iff, hsome]
  simp [BatchCounters.new]

/-- A run goes on to the end when all its reads are right. -/
theorem exists_run_of_reads
    (h : ∀ pre s, pre ++ [.read] <+: events → run (step recordSize maxSize c) .new pre = some s →
      s.isFull maxSize c = .ok (reachesLimit recordSize maxSize c (current [] pre))) :
    ∃ s, run (step recordSize maxSize c) .new events = some s := by
  induction events using List.reverseRecOn with
  | nil => exact ⟨.new, rfl⟩
  | append_singleton events e ih =>
    obtain ⟨s, hrun⟩ := ih fun pre s hpre => h pre s (hpre.trans (List.prefix_append _ _))
    obtain ⟨s', hstep⟩ : ∃ s', step recordSize maxSize c s e = some s' := by
      cases e with
      | add record => exact ⟨_, rfl⟩
      | drain => exact ⟨_, rfl⟩
      | read => exact ⟨s, step_read_eq_some.2 ⟨rfl, _, h events s (List.prefix_refl _) hrun⟩⟩
    refine ⟨s', ?_⟩
    rw [run_append_of_eq_some hrun]
    exact run_cons_eq_some.2 ⟨s', hstep, rfl⟩

end BatchCounters

/-- In a run of a new sink everything is as it should be exactly when every read of `is_full` comes
after a record or a drain, where the byte limit is not null, or finds that the row limit is
reached. -/
theorem batchInvariant_iff (recordSize : Record → ℕ) (maxSize : ℤ) (c : Config)
    (events : List SinkEvent) :
    BatchInvariant recordSize maxSize c events ↔
      ∀ pre, pre ++ [.read] <+: events → maxSize ≤ (current [] pre).length ∨
        (∃ e ∈ pre, e ≠ .read) ∧ c.batchBytesLimit.isSome := by
  constructor
  · intro h pre hpre
    obtain ⟨s, hrun, -⟩ := h.counts pre ((List.prefix_append _ _).trans hpre)
    exact (BatchCounters.isFull_eq_iff_of_run hrun).1 (h.reads pre s hpre hrun)
  · intro h
    refine ⟨fun pre hpre => ?_, fun pre s hpre hrun => ?_, fun hadds batch hbatch hne => ?_⟩
    · obtain ⟨s, hrun⟩ : ∃ s, run (BatchCounters.step recordSize maxSize c) .new pre = some s :=
        BatchCounters.exists_run_of_reads fun p s hp hrun =>
          (BatchCounters.isFull_eq_iff_of_run hrun).2 (h p (hp.trans hpre))
      exact ⟨s, hrun, (BatchCounters.counts_of_run_new hrun).batchBytes⟩
    · exact (BatchCounters.isFull_eq_iff_of_run hrun).2 (h pre hpre)
    · exact reachesLimit_eq_false
        (dropLast_of_mem_drained hadds (fun hnil => absurd rfl hnil) hbatch hne)

/-- `is_full` cannot be read off a new sink. -/
theorem not_batchInvariant_new : ¬ BatchInvariant (fun _ => 0) 50000 {} [.read] := by
  intro h
  obtain ⟨s, hrun, -⟩ := h.counts [.read] (List.prefix_refl _)
  have hread : run (BatchCounters.step (fun _ => 0) 50000 {}) .new [.read] = none := by decide
  rw [hread] at hrun
  cases hrun

end TargetClickhouse
