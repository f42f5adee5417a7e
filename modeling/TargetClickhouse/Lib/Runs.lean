import Mathlib.Tactic

/-!
# Runs of a system

A system is a partial step function on states and events.  `AllSteps` says that every step of a run
meets a condition on its state and event, `Throughout` that every state of a run has a property.

`preserved_of_run` carries a property through a run, `invariant_of_run` through the steps that meet
a condition, `throughout_iff_allSteps` characterises the runs that keep a property which every other
step breaks, and `measure_eq_iff_allSteps` those that do not increase a measure.  `run_filterMap`
projects the runs of a system to the runs of a part of it, and `simulated_of_run` turns a simulation
of the steps into one of the runs.
-/

namespace Runs

variable {σ ε : Type} (step : σ → ε → Option σ)

def run : σ → List ε → Option σ
  | s, [] => some s
  | s, e :: es => (step s e).bind fun s' => run s' es

/-- Every step of the run from `s` meets the condition. -/
def AllSteps (cond : σ → ε → Prop) : σ → List ε → Prop
  | _, [] => True
  | s, e :: es => cond s e ∧ ∀ s', step s e = some s' → AllSteps cond s' es

/-- Every state of the run from `s` has the property. -/
def Throughout (P : σ → Prop) : σ → List ε → Prop
  | s, [] => P s
  | s, e :: es => P s ∧ ∀ s', step s e = some s' → Throughout P s' es

variable {step} {cond : σ → ε → Prop} {P : σ → Prop} {s t : σ} {e : ε} {es : List ε}

theorem run_cons_eq_some :
    run step s (e :: es) = some t ↔ ∃ s', step s e = some s' ∧ run step s' es = some t := by
  rw [run, Option.bind_eq_some_iff]

theorem run_append_of_eq_some {es' : List ε} (h : run step s es = some t) :
    run step s (es ++ es') = run step t es' := by
  induction es generalizing s with
  | nil =>
    obtain rfl := Option.some.inj h
    rfl
  | cons e es ih =>
    obtain ⟨s', hs', hrun⟩ := run_cons_eq_some.1 h
    rw [List.cons_append, run, hs']
    exact ih hrun

theorem allSteps_cons {s' : σ} (h : step s e = some s') :
    AllSteps step cond s (e :: es) ↔ cond s e ∧ AllSteps step cond s' es := by
  rw [AllSteps]
  refine and_congr_right fun _ => ⟨fun hall => hall s' h, fun hall t ht => ?_⟩
  obtain rfl := Option.some.inj (h.symm.trans ht)
  exact hall

theorem throughout_cons {s' : σ} (h : step s e = some s') :
    Throughout step P s (e :: es) ↔ P s ∧ Throughout step P s' es := by
  rw [Throughout]
  refine and_congr_right fun _ => ⟨fun hall => hall s' h, fun hall t ht => ?_⟩
  obtain rfl := Option.some.inj (h.symm.trans ht)
  exact hall

instance decidableAllSteps [∀ s e, Decidable (cond s e)] :
    (s : σ) → (es : List ε) → Decidable (AllSteps step cond s es)
  | _, [] => .isTrue trivial
  | s, e :: es =>
      match h : step s e with
      | none => decidable_of_iff (cond s e) (by simp [AllSteps, h])
      | some s' =>
          have := decidableAllSteps s' es
          decidable_of_iff (cond s e ∧ AllSteps step cond s' es) (allSteps_cons h).symm

theorem AllSteps.and {cond' : σ → ε → Prop} (h : AllSteps step cond s es)
    (h' : AllSteps step cond' s es) : AllSteps step (fun s e => cond s e ∧ cond' s e) s es := by
  induction es generalizing s with
  | nil => trivial
  | cons e es ih => exact ⟨⟨h.1, h'.1⟩, fun s' hs => ih (h.2 s' hs) (h'.2 s' hs)⟩

/-- A condition on the events alone. -/
theorem AllSteps.of_forall {cond : ε → Prop} (h : ∀ e ∈ es, cond e) :
    AllSteps step (fun _ e => cond e) s es := by
  induction es generalizing s with
  | nil => trivial
  | cons e es ih =>
    exact ⟨h e List.mem_cons_self, fun s' _ => ih fun e' he' => h e' (List.mem_cons_of_mem e he')⟩

/-- A condition that follows from an invariant. -/
theorem AllSteps.of_invariant (hstep : ∀ {s e s'}, P s → step s e = some s' → P s')
    (h : ∀ {s e}, P s → cond s e) (hs : P s) : AllSteps step cond s es := by
  induction es generalizing s with
  | nil => trivial
  | cons e es ih => exact ⟨h hs, fun s' he => ih (hstep hs he)⟩

/-- Two conditions that are the same under an invariant. -/
theorem AllSteps.iff_of_invariant {cond' : σ → ε → Prop}
    (hstep : ∀ {s e s'}, P s → step s e = some s' → P s')
    (h : ∀ {s e}, P s → (cond s e ↔ cond' s e)) (hs : P s) :
    AllSteps step cond s es ↔ AllSteps step cond' s es := by
  induction es generalizing s with
  | nil => exact Iff.rfl
  | cons e es ih => exact and_congr (h hs) (forall₂_congr fun s' he => ih (hstep hs he))

theorem Throughout.allSteps (himp : ∀ {s e}, P s → cond s e) (h : Throughout step P s es) :
    AllSteps step cond s es := by
  induction es generalizing s with
  | nil => trivial
  | cons e es ih => exact ⟨himp h.1, fun s' hs => ih (h.2 s' hs)⟩

/-- A system whose steps are always possible runs to the end. -/
theorem exists_run (hstep : ∀ s e, ∃ s', step s e = some s') (s : σ) (es : List ε) :
    ∃ t, run step s es = some t := by
  induction es generalizing s with
  | nil => exact ⟨s, rfl⟩
  | cons e es ih =>
    obtain ⟨s', hs'⟩ := hstep s e
    obtain ⟨t, ht⟩ := ih s'
    exact ⟨t, run_cons_eq_some.2 ⟨s', hs', ht⟩⟩

/-- What the steps under a condition preserve holds at the end of a run of such steps. -/
theorem invariant_of_run
    (hstep : ∀ {s e s'}, P s → cond s e → step s e = some s' → P s') (hs : P s)
    (hall : AllSteps step cond s es) (h : run step s es = some t) : P t := by
  induction es generalizing s with
  | nil =>
    obtain rfl := Option.some.inj h
    exact hs
  | cons e es ih =>
    obtain ⟨s', hs', hrun⟩ := run_cons_eq_some.1 h
    obtain ⟨hcond, hall⟩ := (allSteps_cons hs').1 hall
    exact ih (hstep hs hcond hs') hall hrun

/-- What every step preserves holds at the end of a run. -/
theorem preserved_of_run (hstep : ∀ {s e s'}, P s → step s e = some s' → P s') (hs : P s)
    (h : run step s es = some t) : P t := by
  induction es generalizing s with
  | nil =>
    obtain rfl := Option.some.inj h
    exact hs
  | cons e es ih =>
    obtain ⟨s', hs', hrun⟩ := run_cons_eq_some.1 h
    exact ih (hstep hs hs') hrun

/-- A system that can follow every step of another one can follow its runs. -/
theorem simulated_of_run {σ' : Type} {step' : σ' → ε → Option σ'} {R : σ → σ' → Prop} {u : σ'}
    (hstep : ∀ {s e s' u}, R s u → step s e = some s' → ∃ u', step' u e = some u' ∧ R s' u')
    (hs : R s u) (h : run step s es = some t) : ∃ v, run step' u es = some v ∧ R t v := by
  induction es generalizing s u with
  | nil =>
    obtain rfl := Option.some.inj h
    exact ⟨u, rfl, hs⟩
  | cons e es ih =>
    obtain ⟨s', hs', hrun⟩ := run_cons_eq_some.1 h
    obtain ⟨u', hu', hR⟩ := hstep hs hs'
    obtain ⟨v, hv, hend⟩ := ih hR hrun
    exact ⟨v, run_cons_eq_some.2 ⟨u', hu', hv⟩, hend⟩

/-- A property that is preserved exactly by the steps under a condition holds throughout a run
exactly when all its steps meet the condition. -/
theorem throughout_iff_allSteps
    (hstep : ∀ {s e s'}, P s → step s e = some s' → (P s' ↔ cond s e)) (hs : P s)
    (h : run step s es = some t) : Throughout step P s es ↔ AllSteps step cond s es := by
  induction es generalizing s with
  | nil => exact iff_of_true hs trivial
  | cons e es ih =>
    obtain ⟨s', hs', hrun⟩ := run_cons_eq_some.1 h
    rw [throughout_cons hs', allSteps_cons hs', and_iff_right hs, ← hstep hs hs']
    constructor
    · intro hall
      have hP : P s' := by
        cases es with
        | nil => exact hall
        | cons e' es => exact hall.1
      exact ⟨hP, (ih hP hrun).1 hall⟩
    · rintro ⟨hP, hall⟩
      exact (ih hP hrun).2 hall

/-- A measure that the steps under a condition keep, and all others increase, is kept by a run
exactly when all its steps meet the condition. -/
theorem measure_eq_iff_allSteps (μ : σ → ℤ)
    (heq : ∀ {s e s'}, step s e = some s' → cond s e → μ s' = μ s)
    (hlt : ∀ {s e s'}, step s e = some s' → ¬ cond s e → μ s < μ s')
    (h : run step s es = some t) : μ t = μ s ↔ AllSteps step cond s es := by
  suffices key : μ s ≤ μ t ∧ (μ t = μ s ↔ AllSteps step cond s es) from key.2
  induction es generalizing s with
  | nil =>
    obtain rfl := Option.some.inj h
    exact ⟨le_rfl, iff_of_true rfl trivial⟩
  | cons e es ih =>
    obtain ⟨s', hs', hrun⟩ := run_cons_eq_some.1 h
    obtain ⟨hle, hiff⟩ := ih hrun
    rw [allSteps_cons hs', ← hiff]
    by_cases hc : cond s e
    · have hkeep := heq hs' hc
      rw [← hkeep]
      exact ⟨hle, (and_iff_right hc).symm⟩
    · have hmore := hlt hs' hc
      exact ⟨by omega, iff_of_false (by omega) fun hall => hc hall.1⟩

/-- A step that may be left out. -/
def stepOn (step : σ → ε → Option σ) (s : σ) : Option ε → Option σ
  | none => some s
  | some e => step s e

/-- A part of a system that takes its own step, or none, in every step of the whole. -/
theorem run_filterMap {σ' ε' : Type} {step' : σ' → ε' → Option σ'} (f : σ → σ')
    (g : ε → Option ε')
    (hstep : ∀ {s e s'}, step s e = some s' → stepOn step' (f s) (g e) = some (f s'))
    (h : run step s es = some t) : run step' (f s) (es.filterMap g) = some (f t) := by
  induction es generalizing s with
  | nil =>
    obtain rfl := Option.some.inj h
    rfl
  | cons e es ih =>
    obtain ⟨s', hs', hrun⟩ := run_cons_eq_some.1 h
    have ih := ih hrun
    have hpart := hstep hs'
    cases hg : g e with
    | none =>
      rw [hg] at hpart
      rwa [List.filterMap_cons_none hg, Option.some.inj hpart]
    | some e' =>
      rw [hg] at hpart
      rw [List.filterMap_cons_some hg]
      exact run_cons_eq_some.2 ⟨f s', hpart, ih⟩

end Runs
