import TargetClickhouse.BatchSize
import TargetClickhouse.Delivery

/-!
# Loading a stream

Records are staged, and the batch is drained from time to time by `bulk_insert_records`.
`delivered_of_run` says what a load has delivered at any time: for every batch drained, in order, one
accepted insert with all its records.
-/

namespace TargetClickhouse

open Attempts Batches Effects Effects.Proc Runs

/-- A stream that is loaded. -/
structure Load where
  /-- `context["records"]`. -/
  batch : List Record
  /-- The batches drained so far. -/
  drained : List (List Record)
  world : World

/-- `process_batch` of the SDK's `SQLSink`. -/
def Sink.processBatch (sdk : Sdk) (naming : Naming) (sink : Sink) (records : List Record) :
    Step ℤ := do
  let name ← lift sink.fullTableName
  sink.bulkInsertRecords sdk naming (name.toText naming) sink.schema records

/-- The inserts that were accepted, in order. -/
def World.acceptedInserts (log : List (Request × Outcome)) : List Request :=
  (log.filter fun e => e.1.isInsert && e.2.isReturned).map Prod.fst

namespace Load

section

variable (sdk : Sdk) (naming : Naming) (sink : Sink)

/-- `drain_one` of the SDK, which has nothing to do without records; a load does not go on after a
batch that raises. -/
def drain (s : Load) : Option Load :=
  if s.batch = [] then some s
  else
    match sink.processBatch sdk naming s.batch s.world with
    | (.ok _, w) => some ⟨[], s.drained ++ [s.batch], w⟩
    | _ => none

/-- The load after an event; a read of `is_full` that returns does not change it. -/
def step (s : Load) : SinkEvent → Option Load
  | .add record => some { s with batch := s.batch ++ [record] }
  | .drain => drain sdk naming sink s
  | .read => some s

/-- A load that begins. -/
def start (w : World) : Load := ⟨[], [], w⟩

end

variable {sdk : Sdk} {naming : Naming} {sink : Sink} {s s' t : Load} {e : SinkEvent}
  {events : List SinkEvent}

/-- A drain that goes on has nothing to do, or its insert returned. -/
theorem drain_eq_some (h : drain sdk naming sink s = some s') :
    s.batch = [] ∧ s' = s ∨ s.batch ≠ [] ∧ ∃ (name : TableName) (n : ℤ),
      sink.bulkInsertRecords sdk naming (name.toText naming) sink.schema s.batch s.world =
        (.ok n, s'.world) ∧ s' = ⟨[], s.drained ++ [s.batch], s'.world⟩ := by
  unfold drain at h
  split_ifs at h with hnil
  · exact Or.inl ⟨hnil, (Option.some.inj h).symm⟩
  · refine Or.inr ⟨hnil, ?_⟩
    split at h
    · rename_i n _ hprocess
      obtain rfl := Option.some.inj h
      obtain ⟨name, -, hbulk⟩ := lift_bind_eq_ok.1 hprocess
      exact ⟨name, n, hbulk, rfl⟩
    · cases h

end Load

/-! ## The requests of one batch -/

namespace World

variable {w w' : World} {sent : List (Request × Outcome)}

theorem insertOutcomes_of_log (hlog : w'.log = w.log ++ sent) :
    w'.insertOutcomes =
      w.insertOutcomes ++ (sent.filter fun e => e.1.isInsert).map Prod.snd := by
  rw [insertOutcomes, insertOutcomes, hlog, List.filter_append, List.map_append]

theorem Accepted.exists_mem {p : Request → Prop} (h : Accepted p w w')
    (hlog : w'.log = w.log ++ sent) :
    ∃ request rowcount, p request ∧ (request, Outcome.returned rowcount) ∈ sent := by
  obtain ⟨request, rowcount, log, hp, ⟨before, rfl⟩, after, hafter⟩ := h
  refine ⟨request, rowcount, hp, ?_⟩
  rw [hlog, List.append_assoc, List.append_assoc, List.append_cancel_left_eq] at hafter
  rw [← hafter]
  simp

/-- The outcomes of the inserts of a log. -/
theorem length_filter_inserts (p : Outcome → Bool) (log : List (Request × Outcome)) :
    (log.filter fun e => e.1.isInsert && p e.2).length =
      ((log.filter fun e => e.1.isInsert).map Prod.snd).countP p := by
  rw [← List.countP_eq_length_filter, List.countP_map, List.countP_filter]
  refine List.countP_congr fun e _ => ?_
  simp [and_comm]

theorem acceptedInserts_append (log log' : List (Request × Outcome)) :
    acceptedInserts (log ++ log') = acceptedInserts log ++ acceptedInserts log' := by
  rw [acceptedInserts, List.filter_append, List.map_append]
  rfl

end World

/-- What the requests of a batch were. -/
structure SentBatch (sdk : Sdk) (sink : Sink) (records : List Record) (w : World)
    (sent : List (Request × Outcome)) : Prop where
  carries : ∀ e ∈ sent, e.1.isInsert = true → e.1.CarriesRecords sdk sink.schema records
  outcomes : (sent.filter fun e => e.1.isInsert).map Prod.snd =
    ladder Outcome.reading sink.config.maxTries (sink.recordStages sdk sink.schema records)
      w.script
  accepted : ∃ request, World.acceptedInserts sent = [request] ∧
    request.CarriesRecords sdk sink.schema records

theorem sentBatch_of_bulkInsertRecords {sdk : Sdk} {naming : Naming} {sink : Sink}
    {fullTableName : String} {records : List Record} {w w' : World} {n : ℤ} (hne : records ≠ [])
    (h : sink.bulkInsertRecords sdk naming fullTableName sink.schema records w = (.ok n, w')) :
    ∃ sent, w'.log = w.log ++ sent ∧ SentBatch sdk sink records w sent := by
  have hmoves := Sink.moves_bulkInsertRecords sdk naming sink
    (R := World.Sends fun request => request.isInsert = true →
      request.CarriesRecords sdk sink.schema records)
    (fun _ _ hcarries => sends_send hcarries) fullTableName w
  have hclimbs : Climbs sink (sink.recordStages sdk sink.schema records)
      (sink.bulkInsertRecords sdk naming fullTableName sink.schema records) :=
    Sink.climbs_bulkInsertRecords _ _ _
  have houtcomes := hclimbs w
  rw [h] at hmoves houtcomes
  obtain ⟨sent, hlog, hcarries⟩ := hmoves
  rw [World.insertOutcomes_of_log hlog, List.append_cancel_left_eq] at houtcomes
  refine ⟨sent, hlog, hcarries, houtcomes, ?_⟩
  -- an insert was accepted, and not two
  obtain ⟨request, rowcount, hrequest, hmem⟩ :=
    (Sink.accepted_of_bulkInsertRecords hne h).exists_mem hlog
  have haccepted : request ∈ World.acceptedInserts sent := by
    refine List.mem_map.2 ⟨_, List.mem_filter.2 ⟨hmem, ?_⟩, rfl⟩
    rw [Request.isInsert_of_carriesRecords hrequest]
    rfl
  have hle : (World.acceptedInserts sent).length ≤ 1 := by
    rw [World.acceptedInserts, List.length_map, World.length_filter_inserts, houtcomes,
      ← Outcome.reading_returned]
    exact count_returned_ladder_le_one _ _
  obtain ⟨request', he⟩ := List.length_eq_one_iff.1
    (le_antisymm hle (List.length_pos_of_mem haccepted))
  rw [he, List.mem_singleton] at haccepted
  exact ⟨request, by rw [he, haccepted], hrequest⟩

/-! ## Runs -/

namespace Load

variable {sdk : Sdk} {naming : Naming} {sink : Sink} {s s' t : Load} {e : SinkEvent}
  {events : List SinkEvent} {w : World}

/-- The records that were staged between the two loads are in the batches drained or in the batch,
and the inserts accepted have the batches drained, in order. -/
structure Delivers (sdk : Sdk) (sink : Sink) (s t : Load) (records : List Record) : Prop where
  staged : t.drained.flatten ++ t.batch = s.drained.flatten ++ s.batch ++ records
  accepted : ∃ sent batches, t.world.log = s.world.log ++ sent ∧ t.drained = s.drained ++ batches ∧
    List.Forall₂ (fun batch request => request.CarriesRecords sdk sink.schema batch) batches
      (World.acceptedInserts sent)

theorem Delivers.of_same_world {records : List Record}
    (hstaged : t.drained.flatten ++ t.batch = s.drained.flatten ++ s.batch ++ records)
    (hworld : t.world = s.world) (hdrained : t.drained = s.drained) : Delivers sdk sink s t records :=
  ⟨hstaged, [], [], by rw [hworld, List.append_nil], by rw [hdrained, List.append_nil], .nil⟩

theorem Delivers.trans {u : Load} {records records' : List Record}
    (h : Delivers sdk sink s t records) (h' : Delivers sdk sink t u records') :
    Delivers sdk sink s u (records ++ records') := by
  obtain ⟨sent, batches, hlog, hdrained, hforall⟩ := h.accepted
  obtain ⟨sent', batches', hlog', hdrained', hforall'⟩ := h'.accepted
  refine ⟨?_, sent ++ sent', batches ++ batches', ?_, ?_, ?_⟩
  · rw [h'.staged, h.staged, List.append_assoc]
  · rw [hlog', hlog, List.append_assoc]
  · rw [hdrained', hdrained, List.append_assoc]
  · rw [World.acceptedInserts_append]
    exact List.rel_append hforall hforall'

theorem delivers_drain (h : drain sdk naming sink s = some s') : Delivers sdk sink s s' [] := by
  obtain ⟨-, rfl⟩ | ⟨hne, name, n, hbulk, he⟩ := drain_eq_some h
  · exact .of_same_world (by simp) rfl rfl
  · obtain ⟨sent, hlog, hsent⟩ := sentBatch_of_bulkInsertRecords hne hbulk
    obtain ⟨request, haccepted, hrequest⟩ := hsent.accepted
    refine ⟨?_, sent, [s.batch], hlog, ?_, ?_⟩
    · rw [he]
      simp
    · rw [he]
    · rw [haccepted]
      exact .cons hrequest .nil

theorem delivers_step (h : step sdk naming sink s e = some s') :
    Delivers sdk sink s s' (added [e]) := by
  cases e with
  | add record =>
    obtain rfl := Option.some.inj h
    exact .of_same_world (by simp [added]) rfl rfl
  | drain => exact delivers_drain h
  | read =>
    obtain rfl := Option.some.inj h
    exact .of_same_world (by simp [added]) rfl rfl

theorem delivers_run (h : run (step sdk naming sink) s events = some t) :
    Delivers sdk sink s t (added events) := by
  induction events generalizing s with
  | nil =>
    obtain rfl := Option.some.inj h
    exact .of_same_world (by simp [added]) rfl rfl
  | cons e events ih =>
    obtain ⟨s', hstep, hrun⟩ := run_cons_eq_some.1 h
    have hadded : added (e :: events) = added [e] ++ added events := by cases e <;> rfl
    rw [hadded]
    exact (delivers_step hstep).trans (ih hrun)

/-- Whatever inserts failed on the way, a load has delivered the records of its drained batches in
one accepted insert each, in order, and the other records are in its batch. -/
theorem delivered_of_run (sdk : Sdk) (naming : Naming) (sink : Sink) (w : World)
    (h : run (step sdk naming sink) (start w) events = some t) :
    t.drained.flatten ++ t.batch = added events ∧ ∃ sent, t.world.log = w.log ++ sent ∧
      List.Forall₂ (fun batch request => request.CarriesRecords sdk sink.schema batch) t.drained
        (World.acceptedInserts sent) := by
  have hdelivers := delivers_run h
  obtain ⟨sent, batches, hlog, hdrained, hforall⟩ := hdelivers.accepted
  obtain rfl : t.drained = batches := hdrained
  exact ⟨hdelivers.staged, sent, hlog, hforall⟩

/-- The fast insert of the first batch fails three times before the other path takes its record. -/
theorem delivered_fallback :
    let sink : Sink := ⟨{}, .object [("id", .typed (.one .integer) none)], "users", none⟩
    let events : List SinkEvent := [.add [("id", .int 1)], .drain, .add [("id", .int 2)]]
    let w : World :=
      ⟨[.connectionError 1, .connectionError 2, .connectionError 3, .returned (-1)], [], []⟩
    ∃ t, run (step .verbatim .identifiers sink) (start w) events = some t ∧
      t.drained.flatten ++ t.batch = added events ∧ ∃ sent, t.world.log = w.log ++ sent ∧
        List.Forall₂ (fun batch request => request.CarriesRecords .verbatim sink.schema batch)
          t.drained (World.acceptedInserts sent) := by
  intro sink events w
  exact ⟨_, rfl, delivered_of_run .verbatim .identifiers sink w rfl⟩

end Load

end TargetClickhouse
