import TargetClickhouse.Lib.Runs

/-!
# Tables of merged parts

A table that is written in parts: every insert makes a part, and now and then adjacent parts are
merged into one.  A merge may collapse rows with the same key.  A `Merger` is a way to merge for
which it does not matter when the merges happen.

`merge_flatten_of_run` says that after any inserts and merges the table, merged as a whole, is the
merge of all rows inserted.  From it follow what a table keeps whose merges keep all rows
(`perm_of_run`), some row of every key (`exists_key_iff_of_run`), or the last row of every key
(`ofKey_merge_of_run`).
-/

namespace Merges

variable {α κ : Type} [DecidableEq κ]

/-- The rows with the key, in order. -/
def ofKey (key : α → κ) (k : κ) (rows : List α) : List α := rows.filter fun row => key row = k

/-- A way to merge parts. -/
structure Merger (α κ : Type) [DecidableEq κ] where
  key : α → κ
  merge : List α → List α
  merge_nil : merge [] = []
  /-- The rows of a key are merged among themselves. -/
  ofKey_merge : ∀ rows k, ofKey key k (merge rows) = merge (ofKey key k rows)
  /-- It does not matter what was merged before. -/
  merge_append : ∀ rows rows', merge (merge rows ++ merge rows') = merge (rows ++ rows')

/-- What happens to a table. -/
inductive Event (α : Type) where
  | insert (rows : List α)
  /-- So many adjacent parts are merged, from the part number `first` on. -/
  | merge (first count : ℕ)

/-- The rows that the events insert. -/
def inserted : List (Event α) → List α
  | [] => []
  | .insert rows :: es => rows ++ inserted es
  | .merge _ _ :: es => inserted es

section

variable {key : α → κ} {k : κ} {row : α} {rows rows' : List α}

theorem mem_ofKey : row ∈ ofKey key k rows ↔ row ∈ rows ∧ key row = k := by
  simp [ofKey]

theorem ofKey_append : ofKey key k (rows ++ rows') = ofKey key k rows ++ ofKey key k rows' :=
  List.filter_append _ _

theorem ofKey_cons_of_eq (h : key row = k) : ofKey key k (row :: rows) = row :: ofKey key k rows :=
  List.filter_cons_of_pos (decide_eq_true h)

theorem ofKey_cons_of_ne (h : key row ≠ k) : ofKey key k (row :: rows) = ofKey key k rows :=
  List.filter_cons_of_neg (by simpa using h)

theorem ofKey_eq_nil_iff : ofKey key k rows = [] ↔ ∀ row ∈ rows, key row ≠ k := by
  simp [ofKey]

/-- Repeating rows does not change which row of a key is the last. -/
theorem getLast?_ofKey_replicate (n : ℕ) (rows : List α) :
    (ofKey key k (List.replicate (n + 1) rows).flatten).getLast? = (ofKey key k rows).getLast? := by
  induction n with
  | zero => simp
  | succ n ih =>
    rw [List.replicate_succ, List.flatten_cons, ofKey_append, List.getLast?_append, ih, Option.or_self]

/-- Lists that agree on the rows of every key have the same rows. -/
theorem perm_of_ofKey (h : ∀ k, ofKey key k rows = ofKey key k rows') : rows.Perm rows' := by
  classical
  rw [List.perm_iff_count]
  intro row
  have hcount := congrArg (List.count row) (h (key row))
  rwa [ofKey, ofKey, List.count_filter (by simp), List.count_filter (by simp)] at hcount

end

namespace Merger

variable (m : Merger α κ)

/-- The parts after an event; a merge of parts that are not there is no event. -/
def step (parts : List (List α)) : Event α → Option (List (List α))
  | .insert rows => some (parts ++ [rows])
  | .merge first count =>
      if first + count ≤ parts.length then
        some (parts.take first ++ m.merge ((parts.drop first).take count).flatten ::
          parts.drop (first + count))
      else none

/-- Merges of rows with one key leave them as they are. -/
def KeepsRows : Prop := ∀ k rows, (∀ row ∈ rows, m.key row = k) → m.merge rows = rows

/-- Merges leave a row of every key. -/
def KeepsKeys : Prop := ∀ rows, rows ≠ [] → m.merge rows ≠ []

/-- Merges leave the last row of every key. -/
def KeepsLast : Prop :=
  ∀ k rows, (∀ row ∈ rows, m.key row = k) → m.merge rows = rows.getLast?.toList

/-- Merges leave at most one row of every key. -/
def CollapsesKeys : Prop :=
  ∀ k rows, (∀ row ∈ rows, m.key row = k) → (m.merge rows).length ≤ 1

variable {m} {parts parts' : List (List α)} {e : Event α} {es : List (Event α)}
  {rows rows' rows'' : List α} {k : κ}

theorem merge_merge : m.merge (m.merge rows) = m.merge rows := by
  have happend := m.merge_append rows []
  rwa [m.merge_nil, List.append_nil, List.append_nil] at happend

theorem merge_append_left : m.merge (m.merge rows ++ rows') = m.merge (rows ++ rows') := by
  rw [← m.merge_append, merge_merge, m.merge_append]

theorem merge_append_right : m.merge (rows ++ m.merge rows') = m.merge (rows ++ rows') := by
  rw [← m.merge_append, merge_merge, m.merge_append]

/-- A merge inside the table does not change what the whole table is merged to. -/
theorem merge_inner : m.merge (rows ++ m.merge rows' ++ rows'') =
    m.merge (rows ++ rows' ++ rows'') := by
  rw [← merge_append_left, merge_append_right, merge_append_left]

/-- The step adds the rows that are inserted, as far as the merged table shows. -/
theorem merge_flatten_of_step (h : m.step parts e = some parts') :
    m.merge parts'.flatten = m.merge (parts.flatten ++ inserted [e]) := by
  cases e with
  | insert rows =>
    obtain rfl := Option.some.inj h
    simp [inserted]
  | merge first count =>
    rw [step] at h
    split_ifs at h
    obtain rfl := Option.some.inj h
    have hparts : parts.flatten = (parts.take first).flatten ++
        ((parts.drop first).take count).flatten ++ (parts.drop (first + count)).flatten := by
      rw [← List.flatten_append, ← List.flatten_append, List.append_assoc, ← List.drop_drop,
        List.take_append_drop, List.take_append_drop]
    rw [hparts, List.flatten_append, List.flatten_cons, ← List.append_assoc, merge_inner]
    simp [inserted]

/-- After any inserts and merges, the table merged as a whole is the merge of the rows inserted. -/
theorem merge_flatten_of_run (h : Runs.run m.step parts es = some parts') :
    m.merge parts'.flatten = m.merge (parts.flatten ++ inserted es) := by
  induction es generalizing parts with
  | nil =>
    obtain rfl := Option.some.inj h
    rw [inserted, List.append_nil]
  | cons e es ih =>
    obtain ⟨parts₁, hstep, hrun⟩ := Runs.run_cons_eq_some.1 h
    have hsplit : inserted (e :: es) = inserted [e] ++ inserted es := by
      cases e <;> simp [inserted]
    rw [ih hrun, ← merge_append_left, merge_flatten_of_step hstep, merge_append_left, hsplit,
      List.append_assoc]

/-- The rows of a key in the table, merged. -/
theorem merge_ofKey_of_run (h : Runs.run m.step [] es = some parts) (k : κ) :
    m.merge (ofKey m.key k parts.flatten) = m.merge (ofKey m.key k (inserted es)) := by
  rw [← m.ofKey_merge, ← m.ofKey_merge, merge_flatten_of_run h]
  rfl

theorem KeepsRows.merge_ofKey (hm : m.KeepsRows) (rows : List α) (k : κ) :
    m.merge (ofKey m.key k rows) = ofKey m.key k rows :=
  hm k _ fun _ hrow => (mem_ofKey.1 hrow).2

/-- Merges that keep all rows: the table has the rows inserted. -/
theorem perm_of_run (hm : m.KeepsRows) (h : Runs.run m.step [] es = some parts) :
    parts.flatten.Perm (inserted es) := by
  have hrows : ∀ k, ofKey m.key k parts.flatten = ofKey m.key k (inserted es) := by
    intro k
    have hkey := merge_ofKey_of_run h k
    rwa [hm.merge_ofKey, hm.merge_ofKey] at hkey
  exact perm_of_ofKey hrows

theorem KeepsKeys.merge_eq_nil_iff (hm : m.KeepsKeys) : m.merge rows = [] ↔ rows = [] := by
  constructor
  · intro h
    by_contra hne
    exact hm rows hne h
  · rintro rfl
    exact m.merge_nil

/-- Merges that leave a row of every key: the table has a row of every key inserted. -/
theorem exists_key_iff_of_run (hm : m.KeepsKeys) (h : Runs.run m.step [] es = some parts) :
    (∃ row ∈ parts.flatten, m.key row = k) ↔ ∃ row ∈ inserted es, m.key row = k := by
  have hnil : ofKey m.key k parts.flatten = [] ↔ ofKey m.key k (inserted es) = [] := by
    rw [← hm.merge_eq_nil_iff, merge_ofKey_of_run h, hm.merge_eq_nil_iff]
  rw [ofKey_eq_nil_iff, ofKey_eq_nil_iff] at hnil
  have hexists := not_congr hnil
  push Not at hexists
  exact hexists

theorem CollapsesKeys.eq_of_mem (hm : m.CollapsesKeys) (h : ∀ row ∈ rows, m.key row = k) {row row' : α}
    (hrow : row ∈ m.merge rows) (hrow' : row' ∈ m.merge rows) : row = row' := by
  have hle := hm k rows h
  rcases hmerge : m.merge rows with _ | ⟨a, _ | ⟨b, rest⟩⟩ <;> rw [hmerge] at hle hrow hrow'
  · cases hrow
  · exact (List.mem_singleton.1 hrow).trans (List.mem_singleton.1 hrow').symm
  · simp at hle

theorem KeepsLast.collapsesKeys (hm : m.KeepsLast) : m.CollapsesKeys := by
  intro k rows h
  rw [hm k rows h]
  exact Option.length_toList_le

theorem KeepsLast.merge_ofKey (hm : m.KeepsLast) (rows : List α) (k : κ) :
    m.merge (ofKey m.key k rows) = (ofKey m.key k rows).getLast?.toList :=
  hm k _ fun _ hrow => (mem_ofKey.1 hrow).2

/-- The last row of a key is in the merge. -/
theorem KeepsLast.mem_merge (hm : m.KeepsLast) {row : α}
    (h : (ofKey m.key (m.key row) rows).getLast? = some row) : row ∈ m.merge rows := by
  have hmem : row ∈ ofKey m.key (m.key row) (m.merge rows) := by
    rw [m.ofKey_merge, hm.merge_ofKey, h]
    exact List.mem_singleton_self row
  exact (mem_ofKey.1 hmem).1

/-- Merges that leave the last row of every key: the table merged as a whole has the last row
inserted of every key, also of a key that tells the same rows apart. -/
theorem ofKey_merge_of_run {ι : Type} [DecidableEq ι] {key : α → ι} (hm : m.KeepsLast)
    (hkey : ∀ row row', m.key row = m.key row' ↔ key row = key row')
    (h : Runs.run m.step [] es = some parts) (i : ι) :
    ofKey key i (m.merge parts.flatten) = (ofKey key i (inserted es)).getLast?.toList := by
  by_cases hexists : ∃ row ∈ inserted es, key row = i
  · obtain ⟨row, -, rfl⟩ := hexists
    have hsame : ∀ rows, ofKey key (key row) rows = ofKey m.key (m.key row) rows := by
      intro rows
      refine List.filter_congr fun row' _ => ?_
      rw [decide_eq_decide]
      exact (hkey row' row).symm
    rw [hsame, hsame, m.ofKey_merge, merge_ofKey_of_run h, hm.merge_ofKey]
  · -- a row of the merged table has the key of a row that was inserted
    have hnone : ofKey key i (inserted es) = [] := ofKey_eq_nil_iff.2 fun row hrow hi =>
      hexists ⟨row, hrow, hi⟩
    rw [hnone]
    refine ofKey_eq_nil_iff.2 fun row hrow hi => ?_
    have hmem : row ∈ ofKey m.key (m.key row) (m.merge parts.flatten) := mem_ofKey.2 ⟨hrow, rfl⟩
    rw [m.ofKey_merge, merge_ofKey_of_run h, hm.merge_ofKey, Option.mem_toList] at hmem
    obtain ⟨hinserted, -⟩ := mem_ofKey.1 (List.mem_of_getLast? hmem)
    exact hexists ⟨row, hinserted, hi⟩

end Merger

/-! ## Two ways to merge -/

/-- The last row of every key. -/
def lastRows (key : α → κ) : List α → List α
  | [] => []
  | row :: rows =>
      if ∃ row' ∈ rows, key row' = key row then lastRows key rows else row :: lastRows key rows

section

variable (key : α → κ) {k : κ}

theorem lastRows_cons_of_later {row : α} {rows : List α} (h : ∃ row' ∈ rows, key row' = key row) :
    lastRows key (row :: rows) = lastRows key rows :=
  if_pos h

theorem lastRows_cons_of_last {row : α} {rows : List α} (h : ¬ ∃ row' ∈ rows, key row' = key row) :
    lastRows key (row :: rows) = row :: lastRows key rows :=
  if_neg h

theorem exists_lastRows_iff (rows : List α) :
    (∃ row ∈ lastRows key rows, key row = k) ↔ ∃ row ∈ rows, key row = k := by
  induction rows with
  | nil => rfl
  | cons row rows ih =>
    by_cases hlater : ∃ row' ∈ rows, key row' = key row
    · rw [lastRows_cons_of_later key hlater, ih, List.exists_mem_cons_iff]
      refine (or_iff_right_of_imp ?_).symm
      rintro rfl
      exact hlater
    · rw [lastRows_cons_of_last key hlater, List.exists_mem_cons_iff, List.exists_mem_cons_iff, ih]

theorem exists_append_lastRows_iff (rows rows' : List α) :
    (∃ row ∈ rows ++ lastRows key rows', key row = k) ↔ ∃ row ∈ rows ++ rows', key row = k := by
  simp only [List.mem_append, or_and_right, exists_or, exists_lastRows_iff]

theorem exists_lastRows_append_iff (rows rows' : List α) :
    (∃ row ∈ lastRows key rows ++ rows', key row = k) ↔ ∃ row ∈ rows ++ rows', key row = k := by
  simp only [List.mem_append, or_and_right, exists_or, exists_lastRows_iff]

/-- Rows with the same keys and the same last rows have them after one more row, too. -/
theorem lastRows_cons_congr {row : α} {rows rows' : List α}
    (hkeys : ∀ k, (∃ row ∈ rows, key row = k) ↔ ∃ row ∈ rows', key row = k)
    (h : lastRows key rows = lastRows key rows') :
    lastRows key (row :: rows) = lastRows key (row :: rows') := by
  simp only [lastRows, hkeys, h]

theorem lastRows_lastRows (rows : List α) : lastRows key (lastRows key rows) = lastRows key rows := by
  induction rows with
  | nil => rfl
  | cons row rows ih =>
    by_cases hlater : ∃ row' ∈ rows, key row' = key row
    · rw [lastRows_cons_of_later key hlater, ih]
    · rw [lastRows_cons_of_last key hlater, lastRows_cons_of_last key, ih]
      rwa [exists_lastRows_iff]

theorem lastRows_append_lastRows (rows rows' : List α) :
    lastRows key (rows ++ lastRows key rows') = lastRows key (rows ++ rows') := by
  induction rows with
  | nil => exact lastRows_lastRows key rows'
  | cons row rows ih =>
    exact lastRows_cons_congr key (fun k => exists_append_lastRows_iff key rows rows') ih

theorem lastRows_lastRows_append (rows rows' : List α) :
    lastRows key (lastRows key rows ++ rows') = lastRows key (rows ++ rows') := by
  induction rows with
  | nil => rfl
  | cons row rows ih =>
    by_cases hlater : ∃ row' ∈ rows, key row' = key row
    · have hlater' : ∃ row' ∈ rows ++ rows', key row' = key row := by
        obtain ⟨row', hrow', he⟩ := hlater
        exact ⟨row', List.mem_append_left _ hrow', he⟩
      rw [List.cons_append, lastRows_cons_of_later key hlater, lastRows_cons_of_later key hlater', ih]
    · rw [lastRows_cons_of_last key hlater]
      exact lastRows_cons_congr key (fun k => exists_lastRows_append_iff key rows rows') ih

theorem ofKey_lastRows (rows : List α) :
    ofKey key k (lastRows key rows) = lastRows key (ofKey key k rows) := by
  induction rows with
  | nil => rfl
  | cons row rows ih =>
    by_cases hk : key row = k
    · have hexists : (∃ row' ∈ ofKey key k rows, key row' = key row) ↔
          ∃ row' ∈ rows, key row' = key row := by simp [mem_ofKey, hk]
      rw [ofKey_cons_of_eq hk]
      by_cases hlater : ∃ row' ∈ rows, key row' = key row
      · rw [lastRows_cons_of_later key hlater, lastRows_cons_of_later key (hexists.2 hlater), ih]
      · rw [lastRows_cons_of_last key hlater, lastRows_cons_of_last key (hexists.not.2 hlater),
          ofKey_cons_of_eq hk, ih]
    · rw [ofKey_cons_of_ne hk]
      by_cases hlater : ∃ row' ∈ rows, key row' = key row
      · rw [lastRows_cons_of_later key hlater, ih]
      · rw [lastRows_cons_of_last key hlater, ofKey_cons_of_ne hk, ih]

theorem lastRows_of_key {rows : List α} (h : ∀ row ∈ rows, key row = k) :
    lastRows key rows = rows.getLast?.toList := by
  induction rows with
  | nil => rfl
  | cons row rows ih =>
    obtain ⟨hrow, hrows⟩ := List.forall_mem_cons.1 h
    cases rows with
    | nil => simp [lastRows]
    | cons row' rows =>
      have hlater : ∃ r ∈ row' :: rows, key r = key row :=
        ⟨row', List.mem_cons_self, (hrows row' List.mem_cons_self).trans hrow.symm⟩
      rw [lastRows_cons_of_later key hlater, ih hrows, List.getLast?_cons_cons]

end

namespace Merger

/-- Merges that keep all rows, in the order of the parts. -/
def keepingRows (key : α → κ) : Merger α κ where
  key := key
  merge rows := rows
  merge_nil := rfl
  ofKey_merge _ _ := rfl
  merge_append _ _ := rfl

/-- Merges that keep the last row of every key. -/
def keepingLast (key : α → κ) : Merger α κ where
  key := key
  merge := lastRows key
  merge_nil := rfl
  ofKey_merge := fun _ _ => ofKey_lastRows key _
  merge_append rows rows' := by rw [lastRows_lastRows_append, lastRows_append_lastRows]

theorem keepsRows_keepingRows (key : α → κ) : (keepingRows key).KeepsRows := fun _ _ _ => rfl

theorem keepsKeys_keepingRows (key : α → κ) : (keepingRows key).KeepsKeys := fun _ h => h

theorem keepsLast_keepingLast (key : α → κ) : (keepingLast key).KeepsLast :=
  fun _ _ h => lastRows_of_key key h

theorem keepsKeys_keepingLast (key : α → κ) : (keepingLast key).KeepsKeys := by
  intro rows hne hnil
  obtain ⟨row, hrow⟩ := List.exists_mem_of_ne_nil rows hne
  obtain ⟨row', hrow', -⟩ := (exists_lastRows_iff key rows).2 ⟨row, hrow, rfl⟩
  rw [show lastRows key rows = [] from hnil] at hrow'
  cases hrow'

end Merger

end Merges
