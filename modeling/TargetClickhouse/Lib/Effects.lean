import Mathlib.Tactic

/-!
# Computations that raise, and the retry loop around them

A `Proc σ ε α` runs on a state `σ` and returns a value, raises an exception `ε`, or is still
`pending` because its environment has not answered yet (then nothing after it runs, and no handler
sees it).  The file gives the sequencing and handling rules for normal returns (`bind_eq_ok`,
`handle_eq_ok`, `retryLoop_eq_ok`), and the rules for a relation `R` between the state before
and the state after, whatever the result (`Moves.bind`, `Moves.handle`, `moves_forM`,
`Moves.retryLoop`).  `forM_eq_ok` is the rule for what a loop has established when it returns.

The retry loop calls its body again while the body raises a listed exception, and gives up on the
attempt whose number is `maxTries`; it never gives up when there is no such number.
-/

namespace Effects

/-- How a computation stops. -/
inductive Res (ε α : Type) where
  | ok (a : α)
  | raised (e : ε)
  | pending
  deriving DecidableEq, Repr

/-- A computation over a state. -/
def Proc (σ ε α : Type) : Type := σ → Res ε α × σ

variable {σ ε α β : Type}

namespace Proc

def ret (a : α) : Proc σ ε α := fun s => (.ok a, s)

def bind (m : Proc σ ε α) (f : α → Proc σ ε β) : Proc σ ε β := fun s =>
  match m s with
  | (.ok a, s') => f a s'
  | (.raised e, s') => (.raised e, s')
  | (.pending, s') => (.pending, s')

instance : Monad (Proc σ ε) where
  pure := ret
  bind := bind

/-- A computation that raises at once. -/
def raise (e : ε) : Proc σ ε α := fun s => (.raised e, s)

/-- A pure step that may raise. -/
def lift : Except ε α → Proc σ ε α
  | .ok a => ret a
  | .error e => raise e

/-- A step that reads the state, and may raise. -/
def observe (f : σ → Except ε α) : Proc σ ε α := fun s => lift (f s) s

/-- A step that changes the state. -/
def modify (f : σ → σ) : Proc σ ε Unit := fun s => (.ok (), f s)

/-- `try: m  except Exception as e: h(e)`; what `h` raises is not handled again. -/
def handle (m : Proc σ ε α) (h : ε → Proc σ ε α) : Proc σ ε α := fun s =>
  match m s with
  | (.ok a, s') => (.ok a, s')
  | (.raised e, s') => h e s'
  | (.pending, s') => (.pending, s')

/-- The attempts number `tries`, `tries + 1`, … of a retried body, at most `fuel` of them. -/
def retryLoop (listed : ε → Bool) (maxTries : Option ℤ) (m : Proc σ ε α) : ℕ → ℕ → Proc σ ε α
  | 0, _ => fun s => (.pending, s)
  | fuel + 1, tries => fun s =>
      match m s with
      | (.ok a, s') => (.ok a, s')
      | (.raised e, s') =>
          if listed e ∧ maxTries ≠ some (tries : ℤ) then
            retryLoop listed maxTries m fuel (tries + 1) s'
          else (.raised e, s')
      | (.pending, s') => (.pending, s')

end Proc

open Proc

theorem pure_apply (a : α) (s : σ) : (pure a : Proc σ ε α) s = (.ok a, s) := rfl

theorem bind_apply (m : Proc σ ε α) (f : α → Proc σ ε β) (s : σ) :
    (m >>= f) s = match m s with
      | (.ok a, s') => f a s'
      | (.raised e, s') => (.raised e, s')
      | (.pending, s') => (.pending, s') := rfl

instance : LawfulMonad (Proc σ ε) := by
  refine LawfulMonad.mk' _ (fun m => ?_) (fun a f => rfl) fun m f g => ?_
  · funext s
    show (m >>= pure) s = m s
    rw [bind_apply]
    rcases m s with ⟨a | e | _, t⟩ <;> rfl
  · funext s
    simp only [bind_apply]
    rcases m s with ⟨a | e | _, t⟩ <;> rfl

theorem bind_of_ok {m : Proc σ ε α} {f : α → Proc σ ε β} {s s' : σ} {a : α}
    (h : m s = (.ok a, s')) : (m >>= f) s = f a s' := by
  rw [bind_apply, h]

theorem bind_of_raised {m : Proc σ ε α} {f : α → Proc σ ε β} {s s' : σ} {e : ε}
    (h : m s = (.raised e, s')) : (m >>= f) s = (.raised e, s') := by
  rw [bind_apply, h]

theorem bind_of_pending {m : Proc σ ε α} {f : α → Proc σ ε β} {s s' : σ}
    (h : m s = (.pending, s')) : (m >>= f) s = (.pending, s') := by
  rw [bind_apply, h]

theorem handle_apply (m : Proc σ ε α) (h : ε → Proc σ ε α) (s : σ) :
    handle m h s = match m s with
      | (.ok a, s') => (.ok a, s')
      | (.raised e, s') => h e s'
      | (.pending, s') => (.pending, s') := rfl

theorem retryLoop_succ (listed : ε → Bool) (maxTries : Option ℤ) (m : Proc σ ε α)
    (fuel tries : ℕ) (s : σ) :
    retryLoop listed maxTries m (fuel + 1) tries s = match m s with
      | (.ok a, s') => (.ok a, s')
      | (.raised e, s') =>
          if listed e ∧ maxTries ≠ some (tries : ℤ) then
            retryLoop listed maxTries m fuel (tries + 1) s'
          else (.raised e, s')
      | (.pending, s') => (.pending, s') := rfl

/-- What holds where the first part stops, and where the second does, holds where a sequence stops. -/
theorem bind_induction {P : σ → Prop} {m : Proc σ ε α} {f : α → Proc σ ε β} {s : σ}
    (hm : P (m s).2) (hf : ∀ a t, m s = (.ok a, t) → P (f a t).2) : P ((m >>= f) s).2 := by
  rw [bind_apply]
  rcases hs : m s with ⟨a | e | _, t⟩ <;> rw [hs] at hm
  · exact hf a t hs
  · exact hm
  · exact hm

theorem forM_cons (f : α → Proc σ ε Unit) (a : α) (l : List α) :
    (a :: l).forM f = (f a >>= fun _ => l.forM f) := rfl

theorem lift_ok_bind (a : α) (f : α → Proc σ ε β) : (lift (.ok a) >>= f) = f a := rfl

theorem observe_snd (f : σ → Except ε α) (s : σ) : (observe f s).2 = s := by
  unfold observe
  rcases f s with e | a <;> rfl

theorem observe_ok_bind (f : σ → α) (g : α → Proc σ ε β) (s : σ) :
    (observe (fun s => .ok (f s)) >>= g) s = g (f s) s := rfl

/-! ## Normal returns -/

/-- A sequence returns exactly when both parts do. -/
theorem bind_eq_ok {m : Proc σ ε α} {f : α → Proc σ ε β} {s t : σ} {b : β} :
    (m >>= f) s = (.ok b, t) ↔ ∃ a s', m s = (.ok a, s') ∧ f a s' = (.ok b, t) := by
  rw [bind_apply]
  rcases hm : m s with ⟨_ | _ | _, s'⟩
  · constructor
    · exact fun h => ⟨_, _, rfl, h⟩
    · rintro ⟨a, s₁, h₁, h₂⟩
      obtain ⟨rfl, rfl⟩ : _ = a ∧ s' = s₁ := by simpa using h₁
      exact h₂
  · simp
  · simp

/-- A sequence that does not reach its second part stops in the state of the first. -/
theorem bind_cases {m : Proc σ ε α} {f : α → Proc σ ε β} {s t : σ} {r : Res ε β}
    (h : (m >>= f) s = (r, t)) :
    (∃ a s', m s = (.ok a, s') ∧ f a s' = (r, t)) ∨
      (∀ a, (m s).1 ≠ .ok a) ∧ (∀ b, r ≠ .ok b) ∧ (m s).2 = t := by
  rw [bind_apply] at h
  rcases hm : m s with ⟨a | e | _, s'⟩ <;> rw [hm] at h
  · exact Or.inl ⟨a, s', rfl, h⟩
  · obtain ⟨rfl, rfl⟩ := Prod.mk.inj h
    exact Or.inr ⟨by simp, by simp, rfl⟩
  · obtain ⟨rfl, rfl⟩ := Prod.mk.inj h
    exact Or.inr ⟨by simp, by simp, rfl⟩

theorem pure_eq_ok {a b : α} {s t : σ} : (pure a : Proc σ ε α) s = (.ok b, t) ↔ a = b ∧ s = t := by
  simp [pure_apply]

theorem lift_eq_ok {x : Except ε α} {s t : σ} {a : α} :
    (lift x : Proc σ ε α) s = (.ok a, t) ↔ x = .ok a ∧ s = t := by
  rcases x with e | b <;> simp [lift, ret, raise]

theorem lift_bind_eq_ok {x : Except ε α} {f : α → Proc σ ε β} {s t : σ} {b : β} :
    (lift x >>= f) s = (.ok b, t) ↔ ∃ a, x = .ok a ∧ f a s = (.ok b, t) := by
  rw [bind_eq_ok]
  constructor
  · rintro ⟨a, s', hlift, hf⟩
    obtain ⟨hx, rfl⟩ := lift_eq_ok.1 hlift
    exact ⟨a, hx, hf⟩
  · rintro ⟨a, hx, hf⟩
    exact ⟨a, s, lift_eq_ok.2 ⟨hx, rfl⟩, hf⟩

theorem bind_pure_eq_ok {m : Proc σ ε α} {s t : σ} {b c : β} :
    (m >>= fun _ => pure b) s = (.ok c, t) ↔ b = c ∧ ∃ a, m s = (.ok a, t) := by
  rw [bind_eq_ok]
  constructor
  · rintro ⟨a, s', hm, hpure⟩
    obtain ⟨rfl, rfl⟩ := pure_eq_ok.1 hpure
    exact ⟨rfl, a, hm⟩
  · rintro ⟨rfl, a, hm⟩
    exact ⟨a, t, hm, rfl⟩

theorem observe_eq_ok {f : σ → Except ε α} {s t : σ} {a : α} :
    observe f s = (.ok a, t) ↔ f s = .ok a ∧ s = t :=
  lift_eq_ok

/-- A handled computation returns when the body does, or when the handler does after the body
raised. -/
theorem handle_eq_ok {m : Proc σ ε α} {h : ε → Proc σ ε α} {s t : σ} {a : α} :
    handle m h s = (.ok a, t) ↔
      m s = (.ok a, t) ∨ ∃ e s', m s = (.raised e, s') ∧ h e s' = (.ok a, t) := by
  rw [handle_apply]
  rcases hm : m s with ⟨_ | _ | _, s'⟩ <;> simp

/-! ## The attempts of the retry loop -/

section Attempts

variable {m : Proc σ ε α} {listed : ε → Bool} {maxTries : Option ℤ} {s : σ}

/-- The state after a number of runs of the body. -/
def after (m : Proc σ ε α) (s : σ) : ℕ → σ
  | 0 => s
  | k + 1 => (m (after m s k)).2

/-- The loop goes on after attempts that raise a listed exception, none of them the last one. -/
theorem retryLoop_after {k tries : ℕ}
    (h : ∀ i < k, (∃ e, (m (after m s i)).1 = .raised e ∧ listed e = true) ∧
      maxTries ≠ some ((tries + i : ℕ) : ℤ)) (fuel : ℕ) :
    retryLoop listed maxTries m (fuel + k) tries s =
      retryLoop listed maxTries m fuel (tries + k) (after m s k) := by
  induction k generalizing fuel with
  | zero => rfl
  | succ k ih =>
    have hfuel : fuel + (k + 1) = fuel + 1 + k := by omega
    rw [hfuel, ih (fun i hi => h i (Nat.lt_succ_of_lt hi))]
    obtain ⟨⟨e, he, hlisted⟩, hmax⟩ := h k (Nat.lt_succ_self k)
    rw [retryLoop_succ, after]
    rcases hm : m (after m s k) with ⟨a | e' | _, s'⟩ <;> rw [hm] at he <;> cases he
    exact if_pos ⟨hlisted, hmax⟩

/-- The loop stops at an attempt that raises no listed exception, and at the last one. -/
theorem retryLoop_stop {fuel tries : ℕ}
    (h : ∀ e, (m s).1 = .raised e → listed e = true → maxTries = some (tries : ℤ)) :
    retryLoop listed maxTries m (fuel + 1) tries s = m s := by
  rw [retryLoop_succ]
  rcases hm : m s with ⟨a | e | _, s'⟩
  · rfl
  · rw [hm] at h
    exact if_neg fun hcontinues => hcontinues.2 (h e rfl hcontinues.1)
  · rfl

end Attempts

/-! ## Relations between the state before and after -/

/-- Whatever its result, `m` takes a state to an `R`-related one. -/
def Moves (R : σ → σ → Prop) (m : Proc σ ε α) : Prop := ∀ s, R s (m s).2

section Moves

variable {R : σ → σ → Prop}

theorem moves_pure [IsPreorder σ R] (a : α) : Moves R (pure a : Proc σ ε α) := fun s => refl_of R s

theorem moves_raise [IsPreorder σ R] (e : ε) : Moves R (raise e : Proc σ ε α) :=
  fun s => refl_of R s

theorem moves_lift [IsPreorder σ R] (x : Except ε α) : Moves R (lift x : Proc σ ε α) := by
  rcases x with e | a
  · exact moves_raise e
  · exact moves_pure a

theorem moves_observe [IsPreorder σ R] (f : σ → Except ε α) : Moves R (observe f) :=
  fun s => moves_lift (f s) s

theorem Moves.bind [IsPreorder σ R] {m : Proc σ ε α} {f : α → Proc σ ε β} (hm : Moves R m)
    (hf : ∀ a, Moves R (f a)) : Moves R (m >>= f) := by
  intro s
  have h := hm s
  rw [bind_apply]
  rcases hs : m s with ⟨a | e | _, s'⟩ <;> rw [hs] at h
  · exact trans_of R h (hf a s')
  · exact h
  · exact h

/-- What follows a pure step runs only on the value that the step returns. -/
theorem Moves.lift_bind [IsPreorder σ R] {x : Except ε α} {f : α → Proc σ ε β}
    (hf : ∀ a, x = .ok a → Moves R (f a)) : Moves R (lift x >>= f) := by
  cases x with
  | error e => exact fun s => refl_of R s
  | ok a => exact hf a rfl

theorem Moves.handle [IsPreorder σ R] {m : Proc σ ε α} {h : ε → Proc σ ε α}
    (hm : Moves R m) (hh : ∀ e, Moves R (h e)) : Moves R (handle m h) := by
  intro s
  have hs' := hm s
  rw [handle_apply]
  rcases hs : m s with ⟨a | e | _, s'⟩ <;> rw [hs] at hs'
  · exact hs'
  · exact trans_of R hs' (hh e s')
  · exact hs'

theorem moves_forM [IsPreorder σ R] {f : α → Proc σ ε Unit} {l : List α}
    (hf : ∀ a ∈ l, Moves R (f a)) : Moves R (l.forM f) := by
  induction l with
  | nil => exact moves_pure ()
  | cons a l ih =>
    rw [forM_cons]
    refine (hf a List.mem_cons_self).bind fun _ => ih fun b hb => ?_
    exact hf b (List.mem_cons_of_mem a hb)

/-- What the body of a loop establishes on its return, and no later round destroys, holds of every
item when the loop returns. -/
theorem forM_eq_ok [IsPreorder σ R] {Q : α → σ → Prop} {f : α → Proc σ ε Unit} {l : List α}
    {s t : σ} (hmoves : ∀ a ∈ l, Moves R (f a)) (hstable : ∀ {a s t}, Q a s → R s t → Q a t)
    (hf : ∀ a ∈ l, ∀ {s t}, f a s = (.ok (), t) → Q a t) (h : l.forM f s = (.ok (), t)) :
    ∀ a ∈ l, Q a t := by
  induction l generalizing s with
  | nil => simp
  | cons a l ih =>
    rw [forM_cons] at h
    obtain ⟨⟨⟩, s', ha, hl⟩ := bind_eq_ok.1 h
    have hrest : ∀ b ∈ l, Moves R (f b) := fun b hb => hmoves b (List.mem_cons_of_mem a hb)
    intro b hb
    rcases List.mem_cons.1 hb with rfl | hb
    · have hR : R s' (l.forM f s').2 := moves_forM hrest s'
      rw [hl] at hR
      exact hstable (hf b List.mem_cons_self ha) hR
    · exact ih hrest (fun b hb => hf b (List.mem_cons_of_mem a hb)) hl b hb

/-- A loop whose rounds use up a measure whenever they change the state returns in the state it was
started in exactly when every round does nothing there. -/
theorem forM_eq_self_iff (μ : σ → ℕ) {f : α → Proc σ ε Unit} {l : List α} {s : σ}
    (hle : ∀ a s, (f a s).2 = s ∨ μ (f a s).2 < μ s) :
    l.forM f s = (.ok (), s) ↔ ∀ a ∈ l, f a s = (.ok (), s) := by
  have hround : ∀ a ∈ l, Moves (fun s t => μ t ≤ μ s) (f a) := fun a _ s =>
    (hle a s).elim (fun h => le_of_eq (congrArg μ h)) le_of_lt
  induction l with
  | nil => exact iff_of_true rfl (by simp)
  | cons a l ih =>
    have ih := ih fun b hb => hround b (List.mem_cons_of_mem a hb)
    rw [forM_cons, bind_eq_ok, List.forall_mem_cons]
    constructor
    · rintro ⟨⟨⟩, s', ha, hl⟩
      have hle' : μ (l.forM f s').2 ≤ μ s' :=
        moves_forM (fun b hb => hround b (List.mem_cons_of_mem a hb)) s'
      rw [hl] at hle'
      rcases hle a s with hstay | hlt
      · rw [ha] at hstay
        obtain rfl : s' = s := hstay
        exact ⟨ha, ih.1 hl⟩
      · rw [ha] at hlt
        exact absurd hlt (by simpa using hle')
    · rintro ⟨ha, hl⟩
      exact ⟨(), s, ha, ih.2 hl⟩

theorem Moves.retryLoop [IsPreorder σ R] {m : Proc σ ε α} (hm : Moves R m)
    (listed : ε → Bool) (maxTries : Option ℤ) (fuel tries : ℕ) :
    Moves R (retryLoop listed maxTries m fuel tries) := by
  induction fuel generalizing tries with
  | zero => exact fun s => refl_of R s
  | succ fuel ih =>
    intro s
    have h := hm s
    rw [retryLoop_succ]
    rcases hs : m s with ⟨a | e | _, s'⟩ <;> rw [hs] at h <;> dsimp only
    · exact h
    · split_ifs
      · exact trans_of R h (ih (tries + 1) s')
      · exact h
    · exact h

/-- A normal return of the retry loop is the normal return of one attempt, started in a state the
earlier attempts moved to. -/
theorem retryLoop_eq_ok [IsPreorder σ R] {m : Proc σ ε α} (hm : Moves R m)
    {listed : ε → Bool} {maxTries : Option ℤ} {fuel tries : ℕ} {s t : σ} {a : α}
    (h : retryLoop listed maxTries m fuel tries s = (.ok a, t)) :
    ∃ s', R s s' ∧ m s' = (.ok a, t) := by
  induction fuel generalizing tries s with
  | zero => simp [retryLoop] at h
  | succ fuel ih =>
    have hmove := hm s
    rw [retryLoop_succ] at h
    rcases hs : m s with ⟨b | e | _, s'⟩ <;> rw [hs] at h hmove <;> dsimp only at h hmove
    · exact ⟨s, refl_of R s, hs.trans h⟩
    · split_ifs at h
      · obtain ⟨s₁, h₁, h₂⟩ := ih h
        exact ⟨s₁, trans_of R hmove h₁, h₂⟩
      · simp at h
    · simp at h

end Moves

end Effects
