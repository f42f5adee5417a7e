import Mathlib.Tactic

/-!
# SQL conditions

The three-valued logic of SQL, in which a comparison with `NULL` is unknown, and the statements that
delete or update the rows for which a condition is true.  Rows for which it is false or unknown stay
as they are.

`filter_deleteWhere` and `filter_updateWhere` give the rows that are left for a reader who selects
some of them: a deletion, and an update after which the reader does not select the row any more,
leave the same rows.

A sequence of insertions and deletions leaves the rows that no later deletion hits
(`remaining_eq`), and `remaining_eq_remaining_iff` compares two readings of the deletions, one of
which hits more rows than the other.
-/

namespace Sql

/-- A truth value; `none` is unknown. -/
abbrev Truth := Option Bool

variable {ρ : Type} {α : Type}

def lt (a b : Option ℤ) : Truth := Option.map₂ (fun x y => decide (x < y)) a b

def le (a b : Option ℤ) : Truth := Option.map₂ (fun x y => decide (x ≤ y)) a b

def isNull (a : Option α) : Truth := some a.isNone

def and : Truth → Truth → Truth
  | some false, _ => some false
  | some true, t => t
  | none, some false => some false
  | none, _ => none

/-- The condition is true, not only unknown. -/
def holds (t : Truth) : Bool := t == some true

def deleteWhere (p : ρ → Truth) (rows : List ρ) : List ρ := rows.filter fun r => !holds (p r)

def updateWhere (p : ρ → Truth) (f : ρ → ρ) (rows : List ρ) : List ρ :=
  rows.map fun r => if holds (p r) then f r else r

@[simp] theorem holds_isNull (a : Option α) : holds (isNull a) = a.isNone := by
  cases a <;> rfl

@[simp] theorem holds_and (s t : Truth) : holds (and s t) = (holds s && holds t) := by
  rcases s with _ | _ | _ <;> rcases t with _ | _ | _ <;> rfl

theorem holds_lt_iff {a : Option ℤ} {v : ℤ} :
    holds (lt a (some v)) = true ↔ ∃ n, a = some n ∧ n < v := by
  cases a with
  | none => simp [holds, lt]
  | some n => simp [holds, lt]

theorem holds_le_iff {a : Option ℤ} {v : ℤ} :
    holds (le a (some v)) = true ↔ ∃ n, a = some n ∧ n ≤ v := by
  cases a with
  | none => simp [holds, le]
  | some n => simp [holds, le]

variable {p : ρ → Truth} {f : ρ → ρ} {q : ρ → Bool} {rows : List ρ}

theorem filter_deleteWhere :
    (deleteWhere p rows).filter q = rows.filter fun r => q r && !holds (p r) := by
  rw [deleteWhere, List.filter_filter]

/-- Rows that are not selected after the update are as good as deleted. -/
theorem filter_updateWhere (h : ∀ r, holds (p r) = true → q (f r) = false) :
    (updateWhere p f rows).filter q = rows.filter fun r => q r && !holds (p r) := by
  induction rows with
  | nil => rfl
  | cons r rows ih =>
    simp only [updateWhere, List.map_cons, List.filter_cons] at ih ⊢
    rw [ih]
    by_cases hp : holds (p r) = true
    · simp [hp, h r hp]
    · simp [hp]

/-- Two selections from one list are the same exactly when they select the same elements. -/
theorem filter_eq_filter_iff {q' : ρ → Bool} :
    rows.filter q = rows.filter q' ↔ ∀ r ∈ rows, q r = q' r := by
  refine ⟨fun h r hr => ?_, List.filter_congr⟩
  have hmem : r ∈ rows.filter q ↔ r ∈ rows.filter q' := by rw [h]
  rw [List.mem_filter, List.mem_filter, and_iff_right hr, and_iff_right hr] at hmem
  exact Bool.eq_iff_iff.2 hmem

/-- A selection that contains another one of the same length is the same. -/
theorem filter_eq_filter_of_length {q' : ρ → Bool} (himp : ∀ r, q r = true → q' r = true)
    (h : (rows.filter q).length = (rows.filter q').length) : rows.filter q = rows.filter q' :=
  (List.monotone_filter_right rows himp).eq_of_length h

/-! ## Insertions and deletions -/

/-- A row is inserted, or the rows that a deletion hits are removed. -/
inductive Change (ρ δ : Type) where
  | insert (row : ρ)
  | delete (d : δ)

variable {δ : Type} {hits hits' : δ → ρ → Bool} {changes : List (Change ρ δ)}

/-- What a sequence of changes leaves. -/
def remaining (hits : δ → ρ → Bool) : List ρ → List (Change ρ δ) → List ρ
  | rows, [] => rows
  | rows, .insert row :: changes => remaining hits (rows ++ [row]) changes
  | rows, .delete d :: changes => remaining hits (rows.filter fun r => !hits d r) changes

def deletions : List (Change ρ δ) → List δ
  | [] => []
  | .insert _ :: changes => deletions changes
  | .delete d :: changes => d :: deletions changes

/-- Every inserted row with the deletions that come after it. -/
def inserted : List (Change ρ δ) → List (ρ × List δ)
  | [] => []
  | .insert row :: changes => (row, deletions changes) :: inserted changes
  | .delete _ :: changes => inserted changes

/-- Every row, from the beginning or inserted, with the deletions that come after it. -/
def exposed (rows : List ρ) (changes : List (Change ρ δ)) : List (ρ × List δ) :=
  rows.map (fun row => (row, deletions changes)) ++ inserted changes

/-- No deletion hits the row. -/
def spared (hits : δ → ρ → Bool) (e : ρ × List δ) : Bool := e.2.all fun d => !hits d e.1

theorem remaining_eq (hits : δ → ρ → Bool) (rows : List ρ) (changes : List (Change ρ δ)) :
    remaining hits rows changes = ((exposed rows changes).filter (spared hits)).map Prod.fst := by
  induction changes generalizing rows with
  | nil => simp [remaining, exposed, inserted, deletions, spared, List.filter_map, Function.comp_def]
  | cons change changes ih =>
    cases change with
    | insert row =>
      rw [remaining, ih]
      simp [exposed, inserted, deletions]
    | delete d =>
      rw [remaining, ih]
      simp [exposed, inserted, deletions, spared, List.filter_map, List.filter_filter,
        Function.comp_def, Bool.and_comm]

theorem spared_eq_true_iff {e : ρ × List δ} :
    spared hits e = true ↔ ∀ d ∈ e.2, hits d e.1 = false := by
  simp [spared]

/-- Two readings of the deletions, the first of which hits more, leave the same rows exactly when
they hit the same rows in the end. -/
theorem remaining_eq_remaining_iff (himp : ∀ d row, hits' d row = true → hits d row = true) :
    remaining hits rows changes = remaining hits' rows changes ↔
      ∀ e ∈ exposed rows changes, (∃ d ∈ e.2, hits d e.1 = true) → ∃ d ∈ e.2, hits' d e.1 = true := by
  have hspared : ∀ e, spared hits e = true → spared hits' e = true := by
    intro e he
    rw [spared_eq_true_iff] at he ⊢
    intro d hd
    rw [Bool.eq_false_iff]
    exact fun hhit => Bool.eq_false_iff.1 (he d hd) (himp d e.1 hhit)
  have hnot : ∀ (hits : δ → ρ → Bool) (e : ρ × List δ),
      spared hits e = false ↔ ∃ d ∈ e.2, hits d e.1 = true := by
    intro hits e
    simp [spared]
  rw [remaining_eq, remaining_eq]
  constructor
  · intro h e hmem hhit
    have hlength := congrArg List.length h
    rw [List.length_map, List.length_map] at hlength
    have hsame := filter_eq_filter_iff.1 (filter_eq_filter_of_length hspared hlength) e hmem
    rwa [← hnot, ← hsame, hnot]
  · intro h
    congr 1
    refine List.filter_congr fun e hmem => Bool.eq_iff_iff.2 ⟨hspared e, fun he => ?_⟩
    by_contra hne
    rw [Bool.not_eq_true, hnot] at hne
    rw [(hnot hits' e).2 (h e hmem hne)] at he
    cases he

end Sql
