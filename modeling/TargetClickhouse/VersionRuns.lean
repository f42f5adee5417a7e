import TargetClickhouse.Versions
import TargetClickhouse.ConcurrentSetups

/-!
# Versions over whole runs

Rows are loaded, and versions are activated, in any order.  The live rows at any time are the rows
loaded that no later activation has hit (`liveRows_of_run`), and `modesAgree_iff` says for which runs
it makes no difference whether the target deletes or marks.  `refines_of_run` ties the table with
rows to the server: the calls of `activate_version` leave it the definition of that table.
-/

namespace TargetClickhouse

namespace Table

open Runs

variable {c c' : Config} {t t' u : Table} {e : Event} {events : List Event}

/-- The columns of the activation are there. -/
structure HasMetadata (t : Table) : Prop where
  version : versionColumn ∈ Dict.keys t.definition.columns
  marker : softDeleteColumn ∈ Dict.keys t.definition.columns

/-- The activation takes the row from the live ones. -/
def hits (c : Config) (newVersion : ℤ) (row : Record) : Bool :=
  if c.usesHardDelete then Sql.holds (upToVersion newVersion row)
  else Sql.holds (Sql.lt (version row) (some newVersion))

/-- What an event changes in the live rows of a table with these columns. -/
def Event.change (columns : List (String × SqlType)) : Event → Option (Sql.Change Record ℤ)
  | .activate newVersion _ => some (.delete newVersion)
  | .load row =>
      if rowFits columns row = true ∧ (marker row).isNone = true then some (.insert row) else none

/-- The changes of a run. -/
def changes (t : Table) (events : List Event) : List (Sql.Change Record ℤ) :=
  events.filterMap (Event.change t.definition.columns)

theorem definition_activate (h : t.HasMetadata) (newVersion : ℤ) (deletedAt : DateTime) :
    (t.activate c newVersion deletedAt).definition = t.definition := by
  have hv : t.ensureVersion = t := ensureColumn_of_mem h.version
  have hm : t.ensureMarker = t := ensureColumn_of_mem h.marker
  unfold activate
  by_cases hard : c.usesHardDelete = true
  · simp only [hard, if_true, hv]
    rfl
  · simp only [hard, hv, hm]
    rfl

theorem definition_load (t : Table) (row : Record) : (t.load row).definition = t.definition := by
  unfold load
  split_ifs <;> rfl

/-- The changes of the rest of a run, in the columns at its beginning. -/
theorem changes_step (h : t.HasMetadata) (hstep : step c t e = some t') :
    t'.HasMetadata ∧ t'.changes = t.changes := by
  have hdefinition : t'.definition = t.definition := by
    cases e with
    | activate newVersion deletedAt =>
      obtain rfl := Option.some.inj hstep
      exact definition_activate h newVersion deletedAt
    | load row =>
      obtain rfl := Option.some.inj hstep
      exact definition_load t row
  refine ⟨⟨?_, ?_⟩, ?_⟩
  · rw [hdefinition]
    exact h.version
  · rw [hdefinition]
    exact h.marker
  · funext events
    rw [changes, changes, hdefinition]

theorem liveRows_load (t : Table) (row : Record) :
    (t.load row).liveRows = t.liveRows ++
      if rowFits t.definition.columns row = true ∧ (marker row).isNone = true then [row] else [] := by
  unfold load
  by_cases hfits : rowFits t.definition.columns row = true
  · rw [dif_pos hfits]
    show (t.rows ++ [row]).filter _ = _
    rw [List.filter_append, List.filter_singleton]
    cases hlive : (marker row).isNone with
    | false => simp [liveRows]
    | true => simp [liveRows, hfits]
  · rw [dif_neg hfits, if_neg (fun h => hfits h.1), List.append_nil]

/-- Whatever the order of the loads and the activations, the live rows are those that were live at
first or loaded, and that no later activation has hit. -/
theorem liveRows_of_run (h : t.HasMetadata) (hrun : run (step c) t events = some u) :
    u.liveRows = Sql.remaining (hits c) t.liveRows (t.changes events) := by
  induction events generalizing t with
  | nil =>
    obtain rfl := Option.some.inj hrun
    rfl
  | cons e events ih =>
    obtain ⟨t', hstep, hrun⟩ := run_cons_eq_some.1 hrun
    obtain ⟨hmetadata, hchanges⟩ := changes_step h hstep
    rw [ih hmetadata hrun, hchanges]
    cases e with
    | activate newVersion deletedAt =>
      obtain rfl := Option.some.inj hstep
      have hlive : (t.activate c newVersion deletedAt.1).liveRows =
          t.liveRows.filter fun row => !hits c newVersion row := by
        rw [liveRows_activate h.version h.marker]
        refine List.filter_congr fun row _ => ?_
        unfold hits
        split_ifs <;> rfl
      rw [hlive]
      rfl
    | load row =>
      obtain rfl := Option.some.inj hstep
      rw [liveRows_load]
      unfold changes
      by_cases hlive : rowFits t.definition.columns row = true ∧ (marker row).isNone = true
      · have hchange : Event.change t.definition.columns (.load row) = some (.insert row) :=
          if_pos hlive
        rw [if_pos hlive, List.filterMap_cons_some hchange, Sql.remaining]
      · have hchange : Event.change t.definition.columns (.load row) = none := if_neg hlive
        rw [if_neg hlive, List.filterMap_cons_none hchange, List.append_nil]

/-! ## Deleting and marking -/

theorem hits_hard (hhard : c.usesHardDelete = true) {newVersion : ℤ} {row : Record} :
    hits c newVersion row = true ↔ ∃ n, version row = some n ∧ n ≤ newVersion := by
  rw [hits, if_pos hhard, upToVersion, Sql.holds_le_iff]

theorem hits_soft (hsoft : c.usesHardDelete = false) {newVersion : ℤ} {row : Record} :
    hits c newVersion row = true ↔ ∃ n, version row = some n ∧ n < newVersion := by
  rw [hits, if_neg (by simp [hsoft]), Sql.holds_lt_iff]

/-- A target that deletes and one that marks get the same loads and activations.  They have the same
live rows in the end exactly when every row whose own version is activated after it gets outdated:
a higher version is activated after it, too. -/
theorem modesAgree_iff (h : t.HasMetadata) (hhard : c.usesHardDelete = true)
    (hsoft : c'.usesHardDelete = false) (hrun : run (step c) t events = some t')
    (hrun' : run (step c') t events = some u) :
    t'.liveRows = u.liveRows ↔
      ∀ e ∈ Sql.exposed t.liveRows (t.changes events), ∀ n ∈ e.2, version e.1 = some n →
        ∃ newVersion ∈ e.2, n < newVersion := by
  have himp : ∀ newVersion row, hits c' newVersion row = true → hits c newVersion row = true := by
    intro newVersion row hhit
    obtain ⟨n, hn, hlt⟩ := (hits_soft hsoft).1 hhit
    exact (hits_hard hhard).2 ⟨n, hn, hlt.le⟩
  rw [liveRows_of_run h hrun, liveRows_of_run h hrun', Sql.remaining_eq_remaining_iff himp]
  refine forall₂_congr fun e _ => ⟨fun hhit n hmem hn => ?_, fun hlater => ?_⟩
  · obtain ⟨newVersion, hmem', hsofthit⟩ := hhit ⟨n, hmem, (hits_hard hhard).2 ⟨n, hn, le_rfl⟩⟩
    obtain ⟨n', hn', hlt⟩ := (hits_soft hsoft).1 hsofthit
    obtain rfl := Option.some.inj (hn.symm.trans hn')
    exact ⟨newVersion, hmem', hlt⟩
  · rintro ⟨newVersion, hmem, hhardhit⟩
    obtain ⟨n, hn, hle⟩ := (hits_hard hhard).1 hhardhit
    rcases hle.lt_or_eq with hlt | rfl
    · exact ⟨newVersion, hmem, (hits_soft hsoft).2 ⟨n, hn, hlt⟩⟩
    · obtain ⟨newVersion', hmem', hlt⟩ := hlater n hmem hn
      exact ⟨newVersion', hmem', (hits_soft hsoft).2 ⟨n, hn, hlt⟩⟩

/-- The row of the second version outlives its activation under a target that marks, until the third
one. -/
theorem modesAgree_outdated :
    let t := withMetadata [[("id", .int 1), (versionColumn, .int 1), (softDeleteColumn, .none)]]
      (by decide)
    let events : List Event :=
      [.load [("id", .int 2), (versionColumn, .int 2), (softDeleteColumn, .none)],
        .activate 2 noon, .activate 3 noon,
        .load [("id", .int 3), (versionColumn, .int 3), (softDeleteColumn, .none)]]
    ∃ hard soft, run (step { hardDelete := some true }) t events = some hard ∧
      run (step { hardDelete := some false }) t events = some soft ∧
        hard.liveRows = soft.liveRows := by
  intro t events
  have hmetadata : t.HasMetadata := ⟨by decide, by decide⟩
  have hhard : run (step { hardDelete := some true }) t events = some _ := rfl
  have hsoft : run (step { hardDelete := some false }) t events = some _ := rfl
  exact ⟨_, _, hhard, hsoft, (modesAgree_iff hmetadata rfl rfl hhard hsoft).2 (by decide)⟩

end Table

/-! ## On a server -/

namespace Target

open Effects Effects.Proc Runs

variable {target : Target} {name : TableName} {a : Address} {t : Table} {s s' : Server}
  {stream : Stream}

theorem tableOf_eq_ok (h : Server.IsTableOf target.conn name a) {found : Option TableDef} :
    target.tableOf name s = .ok found ↔ s.tables a = found := by
  rw [tableOf, h.inspected]
  exact ⟨Except.ok.inj, congrArg _⟩

theorem issued_of_missing (h : Server.IsTableOf target.conn name a)
    (hs : s.tables a = some t.definition) {column : String} (type : SqlType)
    (hmem : column ∉ Dict.keys t.definition.columns) :
    Server.issued target.conn name (.prepareColumn column type) s =
      .ok (some (Connector.getColumnAddDdl (name.toText target.conn.naming) column type)) := by
  rw [Server.issued, Server.subject, h.inspected]
  show target.conn.issued name (s.tables a) (.prepareColumn column type) = _
  rw [hs, Connector.issued, Connector.prepareColumn, Dict.lookup_eq_none hmem]

/-- A column that an activation needs. -/
theorem tables_prepareMissing (h : Server.IsTableOf target.conn name a)
    (hs : s.tables a = some t.definition) {column : String} {type : SqlType}
    (hsuits : type.suits column = true) (hfill : type.stores type.fill = true)
    (hrun : target.prepareMissing name column type s = (.ok (), s')) :
    s'.tables = Function.update s.tables a
      (some (t.ensureColumn column type hsuits hfill).definition) := by
  obtain ⟨found, s₁, hobserve, hrun⟩ := bind_eq_ok.1 hrun
  obtain ⟨hfound, rfl⟩ := observe_eq_ok.1 hobserve
  obtain rfl := hs.symm.trans ((tableOf_eq_ok h).1 hfound)
  dsimp only at hrun
  split_ifs at hrun with hmem
  · obtain ⟨-, rfl⟩ := Prod.mk.inj hrun
    rw [Table.ensureColumn_of_mem hmem, ← hs, Function.update_eq_self]
  · have hissue := issued_of_missing h hs type hmem
    rcases Server.perform_eq_ok hrun with ⟨hissued, -⟩ | ⟨ddl, fates, -, hissued, hexecute⟩
    · cases hissue.symm.trans hissued
    · obtain rfl := Option.some.inj (Except.ok.inj (hissue.symm.trans hissued))
      obtain ⟨b, hdatabase, hb, -, rfl⟩ := Server.execute_eq_ok hexecute
      obtain rfl := Option.some.inj (h.pasted.symm.trans hb)
      have htable : (s.withFates fates).tables a = some t.definition := hs
      rw [htable, Table.apply_getColumnAddDdl _ hmem]
      rfl

/-- A mutation leaves the tables. -/
theorem tables_of_mutation (h : Server.send .ok s = (.ok (), s')) : s'.tables = s.tables := by
  obtain ⟨fates, -, heffect⟩ := Server.send_eq_ok h
  obtain rfl := Except.ok.inj heffect
  rfl

/-- The table after an activation that returns. -/
theorem tables_activateVersion (hname : (target.sink stream).fullTableName = .ok name)
    (h : Server.IsTableOf target.conn name a) (hs : s.tables a = some t.definition)
    (hrun : target.activateVersion stream s = (.ok (), s')) (newVersion : ℤ)
    (deletedAt : DateTime) :
    s'.tables = Function.update s.tables a
      (some (t.activate target.conn.config newVersion deletedAt).definition) := by
  rw [activateVersion, hname, lift_ok_bind] at hrun
  obtain ⟨found, s₁, hobserve, hrun⟩ := bind_eq_ok.1 hrun
  obtain ⟨hfound, rfl⟩ := observe_eq_ok.1 hobserve
  obtain rfl := hs.symm.trans ((tableOf_eq_ok h).1 hfound)
  obtain ⟨⟨⟩, s₁, hversion, hrun⟩ := bind_eq_ok.1 hrun
  have htables := tables_prepareMissing h hs (by decide) (by decide) hversion
  rw [Table.activate]
  by_cases hard : target.conn.config.usesHardDelete = true
  · rw [if_pos hard] at hrun ⊢
    rw [tables_of_mutation hrun, htables]
    rfl
  · rw [if_neg hard] at hrun ⊢
    obtain ⟨⟨⟩, s₂, hmarker, hrun⟩ := bind_eq_ok.1 hrun
    have hs₁ : s₁.tables a = some t.ensureVersion.definition := by
      rw [htables, Function.update_self]
      rfl
    rw [tables_of_mutation hrun, tables_prepareMissing h hs₁ (by decide) (by decide) hmarker, htables,
      Function.update_idem]
    rfl

/-- The server over the events of a stream: an activation returns, and a load leaves the schema. -/
def versionStep (target : Target) (stream : Stream) (s : Server) : Table.Event → Option Server
  | .activate _ _ =>
      if (target.activateVersion stream s).1 = .ok () then some (target.activateVersion stream s).2
      else none
  | .load _ => some s

theorem versionStep_activate (hreturns : (target.activateVersion stream s).1 = .ok ())
    (newVersion : ℤ) (deletedAt : Clock) :
    target.versionStep stream s (.activate newVersion deletedAt) =
      some (target.activateVersion stream s).2 :=
  if_pos hreturns

/-- An event of the stream keeps the definitions of the server and of the table with rows together. -/
theorem tables_versionStep {s₀ : Server} {e : Table.Event}
    (hname : (target.sink stream).fullTableName = .ok name)
    (h : Server.IsTableOf target.conn name a)
    (hs : s.tables = Function.update s₀.tables a (some t.definition))
    (hstep : target.versionStep stream s e = some s') :
    ∃ u, Table.step target.conn.config t e = some u ∧
      s'.tables = Function.update s₀.tables a (some u.definition) := by
  cases e with
  | activate newVersion deletedAt =>
    rw [versionStep] at hstep
    split_ifs at hstep with hreturns
    obtain rfl := Option.some.inj hstep
    have ht : s.tables a = some t.definition := by rw [hs, Function.update_self]
    refine ⟨_, rfl, ?_⟩
    rw [tables_activateVersion hname h ht (Prod.ext hreturns rfl) newVersion deletedAt.1, hs,
      Function.update_idem]
  | load row =>
    obtain rfl := Option.some.inj hstep
    exact ⟨_, rfl, by rw [Table.definition_load, hs]⟩

/-- The table with rows has, at the end of every run, the definition that the server has for it, and
the server has left its other tables as they were. -/
theorem refines_of_run (hname : (target.sink stream).fullTableName = .ok name)
    (h : Server.IsTableOf target.conn name a) (hs : s.tables a = some t.definition)
    {events : List Table.Event} (hrun : run (target.versionStep stream) s events = some s') :
    ∃ u, run (Table.step target.conn.config) t events = some u ∧
      s'.tables = Function.update s.tables a (some u.definition) :=
  simulated_of_run (R := fun v (u : Table) => v.tables = Function.update s.tables a (some u.definition))
    (fun htables hstep => tables_versionStep hname h htables hstep)
    (by rw [← hs, Function.update_eq_self]) hrun

/-- A user, loaded before the stream has versions. -/
def oneUser : Table where
  definition := ⟨[("id", .int64), ("name", .nullable .varchar)],
    ⟨.mergeTree, some ["id"], none, none, none⟩⟩
  rows := [[("id", .int 1), ("name", .str "ann")]]
  nodup := by decide
  suits := by decide
  fits := by decide

/-- The first activation adds both columns, the second one finds them. -/
theorem refines_users :
    let target := Target.plain { hardDelete := some false }
    let s := (target.setup .users (.fresh (List.replicate 8 .answered))).2
    let s' := (target.activateVersion .users (target.activateVersion .users s).2).2
    let events : List Table.Event := [.activate 1 Table.noon,
      .load [("id", .int 2), ("name", .none), (versionColumn, .int 2),
        (softDeleteColumn, .datetime .epoch)], .activate 2 Table.noon]
    ∃ u, run (Table.step target.conn.config) oneUser events = some u ∧
      s'.tables = Function.update s.tables ⟨"crm", "users"⟩ (some u.definition) := by
  have hname : ((Target.plain { hardDelete := some false }).sink .users).fullTableName =
      .ok (.qualified none (some "crm") "users") := rfl
  refine refines_of_run hname ⟨rfl, rfl⟩ rfl ?_
  exact run_cons_eq_some.2 ⟨_, versionStep_activate rfl 1 Table.noon,
    run_cons_eq_some.2 ⟨_, rfl,
      run_cons_eq_some.2 ⟨_, versionStep_activate rfl 2 Table.noon, rfl⟩⟩⟩

end Target

end TargetClickhouse
