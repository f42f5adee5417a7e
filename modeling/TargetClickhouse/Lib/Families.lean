import TargetClickhouse.Lib.Runs

/-!
# Families of systems

Copies of one system run beside each other: a new copy is started, one copy takes a step, or all of
them take the same step.  `own` reads off a run of the family what one copy takes part in, and
`run_own` says that this is a run of the copy: the others do not interfere with it.
-/

namespace Families

open Runs

inductive Event (ε : Type) where
  | start
  | at (i : ℕ) (e : ε)
  | all (e : ε)
  deriving DecidableEq, Repr

variable {σ ε : Type}

def step (init : σ) (step₁ : σ → ε → Option σ) (cs : List σ) : Event ε → Option (List σ)
  | .start => some (cs ++ [init])
  | .at i e => (cs[i]?).bind fun c => (step₁ c e).map (cs.set i)
  | .all e => cs.mapM (step₁ · e)

/-- The events of the copy `i`, when there are `n` copies. -/
def own (i : ℕ) : ℕ → List (Event ε) → List ε
  | _, [] => []
  | n, .start :: es => own i (n + 1) es
  | n, .at j e :: es => if j = i then e :: own i n es else own i n es
  | n, .all e :: es => if i < n then e :: own i n es else own i n es

variable {init : σ} {step₁ : σ → ε → Option σ} {cs ds : List σ} {es : List (Event ε)}

/-- Applied to every element, place by place. -/
theorem getElem?_mapM {α β : Type} {f : α → Option β} {l : List α} {l' : List β}
    (h : l.mapM f = some l') (i : ℕ) : l'[i]? = (l[i]?).bind f := by
  induction l generalizing l' i with
  | nil =>
    obtain rfl := Option.some.inj h
    simp
  | cons a l ih =>
    rw [List.mapM_cons] at h
    obtain ⟨b, hb, h⟩ := Option.bind_eq_some_iff.1 h
    obtain ⟨bs, hbs, h⟩ := Option.bind_eq_some_iff.1 h
    obtain rfl := Option.some.inj h
    cases i with
    | zero => exact hb.symm
    | succ i => exact ih hbs i

theorem length_mapM {α β : Type} {f : α → Option β} {l : List α} {l' : List β}
    (h : l.mapM f = some l') : l'.length = l.length := by
  induction l generalizing l' with
  | nil =>
    obtain rfl := Option.some.inj h
    rfl
  | cons a l ih =>
    rw [List.mapM_cons] at h
    obtain ⟨b, -, h⟩ := Option.bind_eq_some_iff.1 h
    obtain ⟨bs, hbs, h⟩ := Option.bind_eq_some_iff.1 h
    obtain rfl := Option.some.inj h
    exact congrArg (· + 1) (ih hbs)

/-- The copies after a step: a new one at the end, one that has changed, or all of them. -/
theorem step_cases {e : Event ε} (h : step init step₁ cs e = some ds) :
    (e = .start ∧ ds = cs ++ [init]) ∨
      (∃ i e₁ c c', e = .at i e₁ ∧ cs[i]? = some c ∧ step₁ c e₁ = some c' ∧ ds = cs.set i c') ∨
      ∃ e₁, e = .all e₁ ∧ ds.length = cs.length ∧
        ∀ i : ℕ, ds[i]? = (cs[i]?).bind fun c => step₁ c e₁ := by
  cases e with
  | start => exact Or.inl ⟨rfl, (Option.some.inj h).symm⟩
  | «at» i e =>
    obtain ⟨c, hc, h⟩ := Option.bind_eq_some_iff.1 h
    obtain ⟨c', hc', rfl⟩ := Option.map_eq_some_iff.1 h
    exact Or.inr (Or.inl ⟨i, e, c, c', rfl, hc, hc', rfl⟩)
  | all e => exact Or.inr (Or.inr ⟨e, rfl, length_mapM h, getElem?_mapM h⟩)

/-- Only `start` changes the number of copies. -/
theorem length_stepOn {o : Option (Event ε)} (h : stepOn (step init step₁) cs o = some ds)
    (ho : o ≠ some .start) : ds.length = cs.length := by
  cases o with
  | none => exact congrArg List.length (Option.some.inj h).symm
  | some e =>
    rcases step_cases h with ⟨rfl, -⟩ | ⟨i, e₁, c, c', -, -, -, rfl⟩ | ⟨e₁, -, hlength, -⟩
    · exact absurd rfl ho
    · exact List.length_set
    · exact hlength

/-- In a run of the family, every copy runs by itself on its own events. -/
theorem run_own (h : run (step init step₁) cs es = some ds) {i : ℕ} {d : σ} (hd : ds[i]? = some d) :
    run step₁ ((cs[i]?).getD init) (own i cs.length es) = some d := by
  induction es generalizing cs with
  | nil =>
    obtain rfl := Option.some.inj h
    rw [hd]
    rfl
  | cons e es ih =>
    obtain ⟨cs', hstep, hrun⟩ := run_cons_eq_some.1 h
    have ih := ih hrun
    rcases step_cases hstep with ⟨rfl, rfl⟩ | ⟨j, e₁, c, c', rfl, hc, hc', rfl⟩ |
      ⟨e₁, rfl, hlength, hall⟩
    · -- the new copy is in its initial state
      have hinit : ((cs ++ [init])[i]?).getD init = (cs[i]?).getD init := by
        rw [List.getElem?_append]
        split_ifs with hi
        · rfl
        · rw [List.getElem?_eq_none (Nat.le_of_not_lt hi), List.getElem?_singleton]
          split_ifs <;> rfl
      rwa [hinit, List.length_append] at ih
    · rw [List.length_set] at ih
      rw [own]
      split_ifs with hj
      · subst hj
        have hlt : j < cs.length := (List.getElem?_eq_some_iff.1 hc).1
        rw [List.getElem?_set_self hlt] at ih
        rw [hc]
        exact run_cons_eq_some.2 ⟨c', hc', ih⟩
      · rwa [List.getElem?_set_ne hj] at ih
    · rw [hlength] at ih
      rw [own]
      split_ifs with hi
      · have hc : cs[i]? = some cs[i] := List.getElem?_eq_getElem hi
        have hi' : i < cs'.length := hlength ▸ hi
        have hc' : cs'[i]? = some cs'[i] := List.getElem?_eq_getElem hi'
        rw [hc'] at ih
        rw [hall i, hc] at hc'
        rw [hc]
        exact run_cons_eq_some.2 ⟨_, hc', ih⟩
      · have hnone : cs[i]? = none := List.getElem?_eq_none (Nat.le_of_not_lt hi)
        rw [hall i, hnone] at ih
        rwa [hnone]

end Families
