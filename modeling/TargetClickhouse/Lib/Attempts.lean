import Mathlib.Tactic

/-!
# Attempts that may have taken effect

An attempt to do something once ends with an outcome: it returned, or it failed, and a failed
attempt may have taken effect all the same.  A stage is a single attempt, or attempts that are
repeated after a listed failure, of which it is known that it had no effect.  A ladder of stages
goes on to the next stage when one ends with a failure.

`ladder` computes which outcomes of a given sequence a ladder consumes, and
`count_ladder_le_one_iff` says for which sequences at most one consumed attempt took effect.  At most
one returned (`count_returned_ladder_le_one`).
-/

namespace Attempts

/-- What an outcome says about its attempt. -/
structure Reading (O : Type) where
  returned : O → Bool
  applied : O → Bool
  listed : O → Bool
  applied_of_returned : ∀ {o}, returned o = true → applied o = true
  not_applied_of_listed : ∀ {o}, listed o = true → applied o = false

inductive Stage where
  | retried
  | single
  deriving DecidableEq, Repr

variable {O : Type} (r : Reading O) (maxTries : Option ℤ)

/-- The outcomes that the attempts number `tries`, `tries + 1`, … consume, and the others. -/
def loop : ℕ → List O → List O × List O
  | _, [] => ([], [])
  | tries, o :: os =>
      if r.listed o ∧ maxTries ≠ some (tries : ℤ) then
        (o :: (loop (tries + 1) os).1, (loop (tries + 1) os).2)
      else ([o], os)

/-- The outcomes that a stage consumes, and the others. -/
def Stage.attempts : Stage → List O → List O × List O
  | .retried, os => loop r maxTries 1 os
  | .single, os => (os.take 1, os.drop 1)

/-- The outcome that ended the stage has the property. -/
def Stage.endsWith (stage : Stage) (os : List O) (p : O → Bool) : Bool :=
  (stage.attempts r maxTries os).1.getLast?.any p

/-- The outcomes that a ladder of stages consumes. -/
def ladder : List Stage → List O → List O
  | [], _ => []
  | stage :: stages, os =>
      (stage.attempts r maxTries os).1 ++
        if stage.endsWith r maxTries os r.returned then []
        else ladder stages (stage.attempts r maxTries os).2

/-- No stage that failed after it took effect is followed by an attempt that takes effect again. -/
def NoResend : List Stage → List O → Prop
  | [], _ => True
  | stage :: stages, os =>
      stage.endsWith r maxTries os r.returned = true ∨
        if stage.endsWith r maxTries os r.applied then
          ∀ o ∈ ladder r maxTries stages (stage.attempts r maxTries os).2, r.applied o = false
        else NoResend stages (stage.attempts r maxTries os).2

instance decidableNoResend :
    ∀ (stages : List Stage) (os : List O), Decidable (NoResend r maxTries stages os)
  | [], _ => inferInstanceAs (Decidable True)
  | stage :: stages, os =>
      have := decidableNoResend stages (stage.attempts r maxTries os).2
      inferInstanceAs (Decidable (stage.endsWith r maxTries os r.returned = true ∨
        if stage.endsWith r maxTries os r.applied then
          ∀ o ∈ ladder r maxTries stages (stage.attempts r maxTries os).2, r.applied o = false
        else NoResend r maxTries stages (stage.attempts r maxTries os).2))

variable {r maxTries}

theorem ladder_nil (stages : List Stage) : ladder r maxTries stages [] = [] := by
  induction stages with
  | nil => rfl
  | cons stage stages ih =>
    cases stage with
    | retried => simpa [ladder, Stage.attempts, loop] using fun _ => ih
    | single => simpa [ladder, Stage.attempts] using fun _ => ih

theorem loop_cons_of_listed {o : O} {os : List O} {tries : ℕ}
    (h : r.listed o ∧ maxTries ≠ some (tries : ℤ)) :
    loop r maxTries tries (o :: os) =
      (o :: (loop r maxTries (tries + 1) os).1, (loop r maxTries (tries + 1) os).2) := by
  rw [loop, if_pos h]

theorem loop_cons_of_end {o : O} {os : List O} {tries : ℕ}
    (h : ¬ (r.listed o ∧ maxTries ≠ some (tries : ℤ))) :
    loop r maxTries tries (o :: os) = ([o], os) := by
  rw [loop, if_neg h]

/-- Every stage makes an attempt. -/
theorem Stage.attempts_ne_nil (stage : Stage) (o : O) (os : List O) :
    (stage.attempts r maxTries (o :: os)).1 ≠ [] := by
  cases stage with
  | retried =>
    rw [Stage.attempts, loop]
    split_ifs <;> exact List.cons_ne_nil _ _
  | single => exact List.cons_ne_nil o _

theorem ladder_eq_nil_iff {stages : List Stage} {o : O} {os : List O} :
    ladder r maxTries stages (o :: os) = [] ↔ stages = [] := by
  cases stages with
  | nil => exact iff_of_true rfl rfl
  | cons stage stages =>
    refine iff_of_false (fun h => ?_) (List.cons_ne_nil _ _)
    exact stage.attempts_ne_nil o os (List.append_eq_nil_iff.1 h).1

/-- Of the attempts of a loop, only the last can have taken effect. -/
theorem count_loop (tries : ℕ) (os : List O) :
    (loop r maxTries tries os).1.countP r.applied =
      if (loop r maxTries tries os).1.getLast?.any r.applied then 1 else 0 := by
  induction os generalizing tries with
  | nil => rfl
  | cons o os ih =>
    by_cases h : r.listed o ∧ maxTries ≠ some (tries : ℤ)
    · have ho := r.not_applied_of_listed h.1
      rw [loop_cons_of_listed h]
      dsimp only
      rw [List.countP_cons_of_neg (by simp [ho]), ih]
      rcases hl : (loop r maxTries (tries + 1) os).1 with _ | ⟨a, as⟩
      · simp [ho]
      · rw [List.getLast?_cons_cons]
    · rw [loop_cons_of_end h]
      by_cases ho : r.applied o = true <;> simp [ho]

theorem Stage.count_attempts (stage : Stage) (os : List O) :
    (stage.attempts r maxTries os).1.countP r.applied =
      if stage.endsWith r maxTries os r.applied then 1 else 0 := by
  cases stage with
  | retried => exact count_loop 1 os
  | single =>
    rcases os with _ | ⟨o, os⟩
    · rfl
    · by_cases ho : r.applied o = true <;> simp [Stage.attempts, Stage.endsWith, ho]

theorem Stage.endsWith_mono {p q : O → Bool} (h : ∀ {o}, p o = true → q o = true)
    {stage : Stage} {os : List O} (hp : stage.endsWith r maxTries os p = true) :
    stage.endsWith r maxTries os q = true := by
  unfold Stage.endsWith at hp ⊢
  rcases hl : (stage.attempts r maxTries os).1.getLast? with _ | o <;> rw [hl] at hp
  · cases hp
  · exact h hp

/-- At most one attempt of a ladder takes effect exactly when it never resends. -/
theorem count_ladder_le_one_iff (stages : List Stage) (os : List O) :
    (ladder r maxTries stages os).countP r.applied ≤ 1 ↔ NoResend r maxTries stages os := by
  induction stages generalizing os with
  | nil => exact iff_of_true (Nat.zero_le _) trivial
  | cons stage stages ih =>
    rw [ladder, NoResend, List.countP_append, stage.count_attempts]
    by_cases hret : stage.endsWith r maxTries os r.returned = true
    · have happ := Stage.endsWith_mono r.applied_of_returned hret
      simp [hret, happ]
    · rw [if_neg hret, or_iff_right hret]
      by_cases happ : stage.endsWith r maxTries os r.applied = true
      · have hnone := List.countP_eq_zero (p := r.applied)
          (l := ladder r maxTries stages (stage.attempts r maxTries os).2)
        rw [if_pos happ, if_pos happ]
        simp only [Bool.not_eq_true] at hnone
        rw [← hnone]
        omega
      · rw [if_neg happ, if_neg happ, Nat.zero_add]
        exact ih _

/-! ## Attempts that return -/

/-- The reading that takes an attempt to have had an effect only when it returned. -/
def Reading.strict (r : Reading O) : Reading O where
  returned := r.returned
  applied := r.returned
  listed := r.listed
  applied_of_returned := id
  not_applied_of_listed := by
    intro o ho
    have happlied := r.not_applied_of_listed ho
    by_contra hreturned
    rw [r.applied_of_returned (by simpa using hreturned)] at happlied
    cases happlied

theorem loop_strict (tries : ℕ) (os : List O) :
    loop r.strict maxTries tries os = loop r maxTries tries os := by
  induction os generalizing tries with
  | nil => rfl
  | cons o os ih =>
    rw [loop, loop, ih]
    rfl

theorem Stage.attempts_strict (stage : Stage) (os : List O) :
    stage.attempts r.strict maxTries os = stage.attempts r maxTries os := by
  cases stage with
  | retried => exact loop_strict 1 os
  | single => rfl

theorem ladder_strict (stages : List Stage) (os : List O) :
    ladder r.strict maxTries stages os = ladder r maxTries stages os := by
  induction stages generalizing os with
  | nil => rfl
  | cons stage stages ih =>
    rw [ladder, ladder, Stage.endsWith, Stage.endsWith, stage.attempts_strict, ih]
    rfl

/-- A ladder stops when an attempt returns. -/
theorem count_returned_ladder_le_one (stages : List Stage) (os : List O) :
    (ladder r maxTries stages os).countP r.returned ≤ 1 := by
  have hstrict : NoResend r.strict maxTries stages os := by
    induction stages generalizing os with
    | nil => trivial
    | cons stage stages ih =>
      rw [NoResend]
      by_cases hreturned : stage.endsWith r.strict maxTries os r.strict.returned = true
      · exact Or.inl hreturned
      · refine Or.inr ?_
        rw [show r.strict.applied = r.strict.returned from rfl, if_neg hreturned]
        exact ih _
  rw [← ladder_strict]
  exact (count_ladder_le_one_iff stages os).2 hstrict

end Attempts
