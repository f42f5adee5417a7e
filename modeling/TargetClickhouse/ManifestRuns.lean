import TargetClickhouse.ManifestPaths
import TargetClickhouse.Lib.Runs

/-!
# Batch files over whole runs

Taps write batch files, and the sinks of several streams process manifests that name them, where the
processing may stop at any point and a later manifest may name a file again.  `consumed_of_run` says
that with `clean_up_batch_files` every file written is served by one completed round, or is still
there.
-/

namespace TargetClickhouse

open Effects Effects.Proc Dict Runs

/-- The files between the taps and the sinks. -/
structure Spool where
  world : World
  /-- The count of `record_counter_metric`. -/
  counted : ℤ

/-- A tap writes a file, or a sink gets a `BATCH` message of the encoding `arrow`. -/
inductive SpoolEvent where
  | write (path : String) (table : ArrowTable)
  | process (sink : Sink) (files : List String)

/-- The tables that were written to the path, in order. -/
def writtenTo (path : String) : List SpoolEvent → List ArrowTable
  | [] => []
  | .write path' table :: es =>
      if path' = path then table :: writtenTo path es else writtenTo path es
  | .process _ _ :: es => writtenTo path es

/-- A round that completed, and the sink that it belongs to. -/
structure Round where
  sink : Sink
  run : FileRun

namespace Round

/-- The tables that the rounds took from the path. -/
def tablesAt (path : String) (rounds : List Round) : List ArrowTable :=
  (rounds.filter fun round => round.run.path = path).map fun round => round.run.table

/-- How many rows the rounds inserted. -/
def rows (rounds : List Round) : ℤ := (rounds.map fun round => (round.run.table.numRows : ℤ)).sum

theorem tablesAt_append (path : String) (rounds rounds' : List Round) :
    tablesAt path (rounds ++ rounds') = tablesAt path rounds ++ tablesAt path rounds' := by
  rw [tablesAt, List.filter_append, List.map_append]
  rfl

theorem tablesAt_cons (path : String) (round : Round) (rounds : List Round) :
    tablesAt path (round :: rounds) =
      if round.run.path = path then round.run.table :: tablesAt path rounds
      else tablesAt path rounds := by
  unfold tablesAt
  split_ifs with h
  · rw [List.filter_cons_of_pos (by simpa using h), List.map_cons]
  · rw [List.filter_cons_of_neg (by simpa using h)]

theorem rows_append (rounds rounds' : List Round) :
    rows (rounds ++ rounds') = rows rounds + rows rounds' := by
  rw [rows, List.map_append, List.sum_append]
  rfl

end Round

/-- The rounds completed between the two worlds, one after the other, and each has served its file.
-/
structure Completed (sdk : Sdk) (naming : Naming) (w w' : World) (rounds : List Round) : Prop where
  log : w.log <+: w'.log
  served : ∀ round ∈ rounds, round.run.Served sdk naming round.sink
  logged : ∀ round ∈ rounds, w.log <+: round.run.before.log ∧ round.run.after.log <+: w'.log
  inOrder : rounds.Pairwise fun round next => round.run.after.log <+: next.run.before.log

section

variable {sdk : Sdk} {naming : Naming} {rules : UrlRules} {w w₁ w' : World}
  {rounds rounds' : List Round}

theorem completed_nil (h : w.log <+: w'.log) : Completed sdk naming w w' [] :=
  ⟨h, by simp, by simp, .nil⟩

theorem Completed.append (h : Completed sdk naming w w₁ rounds)
    (h' : Completed sdk naming w₁ w' rounds') : Completed sdk naming w w' (rounds ++ rounds') := by
  refine ⟨h.log.trans h'.log, ?_, ?_, ?_⟩
  · exact List.forall_mem_append.2 ⟨h.served, h'.served⟩
  · refine List.forall_mem_append.2 ⟨fun round hround => ?_, fun round hround => ?_⟩
    · exact ⟨(h.logged round hround).1, (h.logged round hround).2.trans h'.log⟩
    · exact ⟨h.log.trans (h'.logged round hround).1, (h'.logged round hround).2⟩
  · refine List.pairwise_append.2 ⟨h.inOrder, h'.inOrder, fun round hround next hnext => ?_⟩
    exact (h.logged round hround).2.trans (h'.logged next hnext).1

/-- A file that the processing takes away from a path is served by a round. -/
theorem completed_processArrowBatchFilesFrom {sink : Sink}
    (hclean : sink.config.cleanUpBatchFiles = some true) (files : List String) (start : ℤ)
    (w : World) {res : Res Exn ℤ} {w' : World}
    (h : sink.processArrowBatchFilesFrom sdk naming rules files start w = (res, w')) :
    ∃ rounds, Completed sdk naming w w' rounds ∧
      (∀ path, (w.files.lookup path).toList =
        Round.tablesAt path rounds ++ (w'.files.lookup path).toList) ∧
      ∀ total, res = .ok total → total = start + Round.rows rounds := by
  induction files generalizing start w with
  | nil =>
    obtain ⟨rfl, rfl⟩ := Prod.mk.inj h
    refine ⟨[], completed_nil List.prefix_rfl, fun _ => rfl, fun total htotal => ?_⟩
    obtain rfl := Res.ok.inj htotal
    simp [Round.rows]
  | cons fileUri files ih =>
    have hspec := Sink.processArrowBatchFile_spec fileUri w
      (Prod.eta (sink.processArrowBatchFile sdk naming rules fileUri w)).symm
    rcases bind_cases h with ⟨n, w₁, hfile, hrest⟩ | ⟨hfile, hres, rfl⟩
    · rw [hfile] at hspec
      obtain ⟨hlog, ⟨hne, -⟩ | ⟨run, hn, -, htable, hserved, hbefore, hafter, hfiles⟩⟩ := hspec
      · exact absurd rfl (hne n)
      · obtain rfl := Res.ok.inj hn
        obtain ⟨rounds, hrounds, htables, htotal⟩ := ih _ w₁ hrest
        have hround : Completed sdk naming w w₁ [⟨sink, run⟩] :=
          ⟨hlog, by simpa using hserved, by simpa using ⟨hbefore, hafter⟩, by simp⟩
        refine ⟨⟨sink, run⟩ :: rounds, hround.append hrounds, fun path => ?_, fun total ht => ?_⟩
        · rw [Round.tablesAt_cons]
          have htables := htables path
          rw [hfiles path, hclean] at htables
          by_cases hpath : run.path = path
          · obtain rfl := hpath
            rw [if_pos ⟨rfl, rfl⟩] at htables
            rw [if_pos rfl, htable, List.cons_append, ← htables]
            rfl
          · rw [if_neg fun hand => hpath hand.2.symm] at htables
            rw [if_neg hpath, htables]
        · rw [htotal total ht, Round.rows, Round.rows, List.map_cons, List.sum_cons]
          ring
    · obtain ⟨hlog, ⟨-, hfiles⟩ | ⟨run, hn, -⟩⟩ := hspec
      · refine ⟨[], completed_nil hlog, fun path => ?_, fun total ht => absurd ht (hres total)⟩
        rw [hfiles]
        rfl
      · exact absurd hn (hfile _)

end

/-! ## Runs -/

namespace Spool

section

variable (sdk : Sdk) (naming : Naming) (rules : UrlRules) (s : Spool)

/-- `process_batch_files`, for the encoding `arrow`; the count is not changed when it raises. -/
def processBatchFiles (sink : Sink) (files : List String) : Spool :=
  match sink.processArrowBatchFiles sdk naming rules files s.world with
  | (.ok recordCount, w) => ⟨w, s.counted + recordCount⟩
  | (_, w) => ⟨w, s.counted⟩

/-- The files after an event; a tap does not write over a file. -/
def step : SpoolEvent → Option Spool
  | .write path table =>
      if path ∈ keys s.world.files then none
      else some { s with world := { s.world with files := s.world.files ++ [(path, table)] } }
  | .process sink files => some (s.processBatchFiles sdk naming rules sink files)

end

/-- The sink removes the files that it has processed. -/
def CleansUp : SpoolEvent → Prop
  | .write _ _ => True
  | .process sink _ => sink.config.cleanUpBatchFiles = some true

variable {sdk : Sdk} {naming : Naming} {rules : UrlRules} {s s' t : Spool} {e : SpoolEvent}
  {events : List SpoolEvent}

/-- Between the two states, the rounds took the tables that were there or were written, and their
rows were counted at most once. -/
structure Consumed (sdk : Sdk) (naming : Naming) (s t : Spool) (events : List SpoolEvent)
    (rounds : List Round) : Prop where
  completed : Completed sdk naming s.world t.world rounds
  tables : ∀ path, (s.world.files.lookup path).toList ++ writtenTo path events =
    Round.tablesAt path rounds ++ (t.world.files.lookup path).toList
  counted : t.counted ≤ s.counted + Round.rows rounds

theorem rows_nonneg (rounds : List Round) : 0 ≤ Round.rows rounds := by
  refine List.sum_nonneg fun n hn => ?_
  obtain ⟨round, -, rfl⟩ := List.mem_map.1 hn
  exact Int.natCast_nonneg _

theorem consumed_processBatchFiles {sink : Sink}
    (hclean : sink.config.cleanUpBatchFiles = some true) (files : List String) :
    ∃ rounds, Consumed sdk naming s (s.processBatchFiles sdk naming rules sink files)
      [.process sink files] rounds := by
  unfold processBatchFiles
  rcases hres : sink.processArrowBatchFiles sdk naming rules files s.world with ⟨res, w⟩
  obtain ⟨rounds, hrounds, htables, htotal⟩ :=
    completed_processArrowBatchFilesFrom hclean files 0 s.world hres
  refine ⟨rounds, ?_⟩
  have htables' : ∀ path, (s.world.files.lookup path).toList ++
      writtenTo path [.process sink files] =
        Round.tablesAt path rounds ++ (w.files.lookup path).toList := by
    intro path
    rw [writtenTo, writtenTo, List.append_nil, htables]
  have hnonneg := rows_nonneg rounds
  cases res with
  | ok total =>
    have hcount := htotal total rfl
    exact ⟨hrounds, htables', by dsimp only; omega⟩
  | raised exn => exact ⟨hrounds, htables', by dsimp only; omega⟩
  | pending => exact ⟨hrounds, htables', by dsimp only; omega⟩

theorem consumed_step (hclean : CleansUp e) (h : step sdk naming rules s e = some s') :
    ∃ rounds, Consumed sdk naming s s' [e] rounds := by
  cases e with
  | process sink files =>
    obtain rfl := Option.some.inj h
    exact consumed_processBatchFiles hclean files
  | write path table =>
    rw [step] at h
    split_ifs at h with hmem
    obtain rfl := Option.some.inj h
    refine ⟨[], completed_nil List.prefix_rfl, fun path' => ?_, by simp [Round.rows]⟩
    have hnone : s.world.files.lookup path = none := lookup_eq_none hmem
    show _ = ((s.world.files ++ [(path, table)]).lookup path').toList
    rw [List.lookup_append, lookup_cons, writtenTo]
    by_cases hpath : path' = path
    · rw [hpath, hnone, if_pos rfl, if_pos rfl]
      rfl
    · rw [if_neg (Ne.symm hpath), if_neg hpath]
      simp [writtenTo]

theorem writtenTo_cons (path : String) (e : SpoolEvent) (events : List SpoolEvent) :
    writtenTo path (e :: events) = writtenTo path [e] ++ writtenTo path events := by
  cases e with
  | write path' table =>
    by_cases hpath : path' = path <;> simp [writtenTo, hpath]
  | process sink files => rfl

theorem Consumed.cons {rounds rounds' : List Round} (h : Consumed sdk naming s s' [e] rounds)
    (h' : Consumed sdk naming s' t events rounds') :
    Consumed sdk naming s t (e :: events) (rounds ++ rounds') := by
  refine ⟨h.completed.append h'.completed, fun path => ?_, ?_⟩
  · rw [writtenTo_cons, ← List.append_assoc, h.tables, List.append_assoc, h'.tables,
      Round.tablesAt_append, List.append_assoc]
  · have hle := h.counted
    have hle' := h'.counted
    rw [Round.rows_append]
    omega

theorem exists_consumed (hclean : ∀ e ∈ events, CleansUp e)
    (h : run (step sdk naming rules) s events = some t) :
    ∃ rounds, Consumed sdk naming s t events rounds := by
  induction events generalizing s with
  | nil =>
    obtain rfl := Option.some.inj h
    exact ⟨[], completed_nil List.prefix_rfl, fun path => by simp [writtenTo, Round.tablesAt],
      by simp [Round.rows]⟩
  | cons e events ih =>
    obtain ⟨s', hstep, hrun⟩ := run_cons_eq_some.1 h
    obtain ⟨hfirst, hrest⟩ := List.forall_mem_cons.1 hclean
    obtain ⟨rounds, hrounds⟩ := consumed_step hfirst hstep
    obtain ⟨rounds', hrounds'⟩ := ih hrest hrun
    exact ⟨rounds ++ rounds', hrounds.cons hrounds'⟩

/-- Wherever the processing of manifests stopped, and whatever files they named again: the tables
written to a path are those that completed rounds have served, in order, and the one that is still
there. -/
theorem consumed_of_run (sdk : Sdk) (naming : Naming) (rules : UrlRules) (w : World)
    (hfiles : w.files = []) (hclean : ∀ e ∈ events, CleansUp e)
    (h : run (step sdk naming rules) ⟨w, 0⟩ events = some t) :
    ∃ rounds, Completed sdk naming w t.world rounds ∧
      (∀ path, writtenTo path events =
        Round.tablesAt path rounds ++ (t.world.files.lookup path).toList) ∧
      t.counted ≤ Round.rows rounds := by
  obtain ⟨rounds, hrounds⟩ := exists_consumed hclean h
  refine ⟨rounds, hrounds.completed, fun path => ?_, by simpa using hrounds.counted⟩
  have htables := hrounds.tables path
  rwa [hfiles] at htables

/-- A manifest that is processed again after its insert failed. -/
theorem consumed_again :
    let sink : Sink := ⟨{ driver := some .native, cleanUpBatchFiles := some true },
      .object [("id", .typed (.one .integer) none)], "users", none⟩
    let events : List SpoolEvent := [.write "/b" (ArrowTable.single "id" [.int 1]),
      .process sink ["/b"], .process sink ["/b"]]
    let w : World := ⟨[.returned 0, .failed 1 false, .returned 0, .returned 1, .returned 0], [], []⟩
    ∃ t, run (step .verbatim .identifiers .lenient) ⟨w, 0⟩ events = some t ∧
      ∃ rounds, Completed .verbatim .identifiers w t.world rounds ∧
        (∀ path, writtenTo path events =
          Round.tablesAt path rounds ++ (t.world.files.lookup path).toList) ∧
        t.counted ≤ Round.rows rounds := by
  intro sink events w
  have hclean : ∀ e ∈ events, CleansUp e := by simp [events, CleansUp, sink]
  exact ⟨_, rfl, consumed_of_run .verbatim .identifiers .lenient w rfl hclean rfl⟩

end Spool

end TargetClickhouse
