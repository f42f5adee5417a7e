import TargetClickhouse.Lib.Effects
import TargetClickhouse.Lib.Runs

/-!
# Computations that others interrupt

A `Thread` is a computation cut into the steps that nobody interrupts.  Alone, it is the computation
`Thread.whole`; in a `Pool` the threads take their steps in any order.

`Thread.Keeps R Q` says that a thread moves the state along `R` and returns with `Q`, as long as
nobody else moves it otherwise than along `R`.  It has a rule for each construction of a thread, and
`Pool.keeps_of_run` carries it through every schedule of a pool.
-/

namespace Interference

open Effects Runs

/-- A computation and the points where others may take steps: before each of its own.  What a step
does and where the computation goes on depends on the state. -/
inductive Thread (σ ε α : Type) where
  | stopped (r : Res ε α)
  | next (move : σ → σ) (rest : σ → Thread σ ε α)

variable {σ ε α β : Type}

namespace Thread

def bind : Thread σ ε α → (α → Thread σ ε β) → Thread σ ε β
  | stopped (.ok a), f => f a
  | stopped (.raised e), _ => stopped (.raised e)
  | stopped .pending, _ => stopped .pending
  | next move rest, f => next move fun s => (rest s).bind f

instance : Monad (Thread σ ε) where
  pure a := stopped (.ok a)
  bind := bind

/-- A computation that takes a single step. -/
def atomic (p : Proc σ ε α) : Thread σ ε α := next (fun s => (p s).2) fun s => stopped (p s).1

/-- A pure computation takes no step. -/
def lift : Except ε α → Thread σ ε α
  | .ok a => pure a
  | .error e => stopped (.raised e)

/-- All steps of a thread, one after the other. -/
def whole : Thread σ ε α → Proc σ ε α
  | stopped r => fun s => (r, s)
  | next move rest => fun s => (rest s).whole (move s)

/-- The thread and the state after its next step. -/
def advance : Thread σ ε α → σ → Option (Thread σ ε α × σ)
  | stopped _, _ => none
  | next move rest, s => some (rest s, move s)

/-- As long as others move the state along `R` only, the thread does so too, and returns a value
and a state with `Q`. -/
def Keeps (R : σ → σ → Prop) (Q : α → σ → Prop) : Thread σ ε α → σ → Prop
  | stopped r, s => ∀ a, r = .ok a → ∀ t, R s t → Q a t
  | next move rest, s => ∀ t, R s t → R t (move t) ∧ (rest t).Keeps R Q (move t)

/-! ## The whole of a thread -/

theorem whole_atomic (p : Proc σ ε α) : (atomic p).whole = p := rfl

theorem whole_lift (x : Except ε α) : (lift x : Thread σ ε α).whole = Proc.lift x := by
  cases x <;> rfl

theorem whole_bind (m : Thread σ ε α) (f : α → Thread σ ε β) :
    (m >>= f).whole = m.whole >>= fun a => (f a).whole := by
  induction m with
  | stopped r => cases r <;> rfl
  | next move rest ih =>
    funext s
    exact congrFun (ih s) (move s)

theorem whole_forM (f : α → Thread σ ε Unit) (l : List α) :
    (l.forM f).whole = l.forM fun a => (f a).whole := by
  induction l with
  | nil => rfl
  | cons a l ih =>
    rw [forM_cons, ← ih]
    exact whole_bind (f a) fun _ => l.forM f

/-! ## The rules -/

section Keeps

variable {R : σ → σ → Prop} {Q : α → σ → Prop} {m m' : Thread σ ε α} {s t : σ}

/-- What others do does not matter. -/
theorem Keeps.stable [IsPreorder σ R] (h : m.Keeps R Q s) (hR : R s t) : m.Keeps R Q t := by
  cases m with
  | stopped r => exact fun a ha u hu => h a ha u (trans_of R hR hu)
  | next move rest => exact fun u hu => h u (trans_of R hR hu)

theorem Keeps.mono {Q' : α → σ → Prop} (h : m.Keeps R Q s) (hQ : ∀ {a t}, Q a t → Q' a t) :
    m.Keeps R Q' s := by
  induction m generalizing s with
  | stopped r => exact fun a ha t ht => hQ (h a ha t ht)
  | next move rest ih => exact fun t ht => ⟨(h t ht).1, ih t (h t ht).2⟩

theorem Keeps.advance [IsPreorder σ R] (h : m.Keeps R Q s) (ha : m.advance s = some (m', t)) :
    R s t ∧ m'.Keeps R Q t := by
  cases m with
  | stopped r => cases ha
  | next move rest =>
    obtain ⟨rfl, rfl⟩ := Prod.mk.inj (Option.some.inj ha)
    exact h s (refl_of R s)

theorem keeps_pure {a : α} (h : ∀ t, R s t → Q a t) : (pure a : Thread σ ε α).Keeps R Q s := by
  intro b hb t ht
  obtain rfl := Res.ok.inj hb
  exact h t ht

theorem keeps_atomic {p : Proc σ ε α} (hp : Moves R p)
    (h : ∀ a t u v, R s t → p t = (.ok a, u) → R u v → Q a v) : (atomic p).Keeps R Q s :=
  fun t ht => ⟨hp t, fun a ha _ hv => h a t _ _ ht (Prod.ext ha rfl) hv⟩

theorem Keeps.bind [IsPreorder σ R] {Q' : β → σ → Prop} {f : α → Thread σ ε β}
    (h : m.Keeps R Q s) (hf : ∀ a t, Q a t → (f a).Keeps R Q' t) : (m >>= f).Keeps R Q' s := by
  induction m generalizing s with
  | stopped r =>
    cases r with
    | ok a => exact hf a s (h a rfl s (refl_of R s))
    | raised e => exact nofun
    | pending => exact nofun
  | next move rest ih => exact fun t ht => ⟨(h t ht).1, ih t (h t ht).2⟩

theorem Keeps.lift_bind {Q' : β → σ → Prop} {x : Except ε α} {f : α → Thread σ ε β}
    (hf : ∀ a, x = .ok a → (f a).Keeps R Q' s) : (lift x >>= f).Keeps R Q' s := by
  cases x with
  | error e => exact nofun
  | ok a => exact hf a rfl

/-- What holds for good may be used afterwards. -/
theorem Keeps.frame [IsPreorder σ R] {F : σ → Prop} (h : m.Keeps R Q s)
    (hF : ∀ {s t}, F s → R s t → F t) (hs : F s) : m.Keeps R (fun a t => Q a t ∧ F t) s := by
  induction m generalizing s with
  | stopped r => exact fun a ha t ht => ⟨h a ha t ht, hF hs ht⟩
  | next move rest ih =>
    exact fun t ht => ⟨(h t ht).1, ih t (h t ht).2 (hF (hF hs ht) (h t ht).1)⟩

/-- What every round of a loop establishes for good holds of all items when the loop returns. -/
theorem keeps_forM [IsPreorder σ R] {Q : α → σ → Prop} {f : α → Thread σ ε Unit} {l : List α}
    (hstable : ∀ {a s t}, Q a s → R s t → Q a t)
    (hf : ∀ a ∈ l, ∀ t, R s t → (f a).Keeps R (fun _ => Q a) t) :
    (l.forM f).Keeps R (fun _ t => ∀ a ∈ l, Q a t) s := by
  induction l generalizing s with
  | nil => exact keeps_pure fun t _ => by simp
  | cons a l ih =>
    have hround : (f a).Keeps R (fun _ t => Q a t ∧ R s t) s :=
      (hf a List.mem_cons_self s (refl_of R s)).frame (F := R s) (fun hu hR => trans_of R hu hR)
        (refl_of R s)
    refine hround.bind fun _ t ht => ?_
    have hrest := ih (s := t) fun b hb u hu =>
      hf b (List.mem_cons_of_mem a hb) u (trans_of R ht.2 hu)
    refine (hrest.frame hstable ht.1).mono fun hall => ?_
    exact List.forall_mem_cons.2 ⟨hall.2, hall.1⟩

end Keeps

end Thread

/-! ## Pools -/

/-- Threads over one state. -/
structure Pool (σ ε α : Type) where
  threads : List (Thread σ ε α)
  shared : σ

namespace Pool

/-- Thread `i` takes its next step. -/
def step (pool : Pool σ ε α) (i : ℕ) : Option (Pool σ ε α) :=
  (pool.threads[i]?).bind fun m =>
    (m.advance pool.shared).map fun after => ⟨pool.threads.set i after.1, after.2⟩

/-- Every thread keeps its promise from here on. -/
def Keeps (R : σ → σ → Prop) (Q : ℕ → α → σ → Prop) (pool : Pool σ ε α) : Prop :=
  ∀ i (m : Thread σ ε α), pool.threads[i]? = some m → m.Keeps R (Q i) pool.shared

variable {pool pool' : Pool σ ε α} {i : ℕ} {schedule : List ℕ}

theorem step_eq_some (h : pool.step i = some pool') :
    ∃ m m', pool.threads[i]? = some m ∧ m.advance pool.shared = some (m', pool'.shared) ∧
      pool'.threads = pool.threads.set i m' := by
  obtain ⟨m, hm, h⟩ := Option.bind_eq_some_iff.1 h
  obtain ⟨after, hafter, rfl⟩ := Option.map_eq_some_iff.1 h
  exact ⟨m, after.1, hm, hafter, rfl⟩

section

variable {R : σ → σ → Prop} [IsPreorder σ R] {Q : ℕ → α → σ → Prop}

theorem keeps_step (h : pool.Keeps R Q) (hs : pool.step i = some pool') :
    R pool.shared pool'.shared ∧ pool'.Keeps R Q := by
  obtain ⟨m, m', hm, hadvance, hthreads⟩ := step_eq_some hs
  obtain ⟨hmove, hkeeps⟩ := (h i m hm).advance hadvance
  refine ⟨hmove, fun j n hn => ?_⟩
  rw [hthreads] at hn
  by_cases hij : i = j
  · subst hij
    rw [List.getElem?_set_self (List.getElem?_eq_some_iff.1 hm).1] at hn
    obtain rfl := Option.some.inj hn
    exact hkeeps
  · rw [List.getElem?_set_ne hij] at hn
    exact (h j n hn).stable hmove

/-- In every schedule the state moves along `R`, and the threads keep their promises. -/
theorem keeps_of_run (h : pool.Keeps R Q) (hrun : run step pool schedule = some pool') :
    R pool.shared pool'.shared ∧ pool'.Keeps R Q := by
  refine preserved_of_run (P := fun after => R pool.shared after.shared ∧ after.Keeps R Q) ?_
    ⟨refl_of R _, h⟩ hrun
  rintro before j after ⟨hmoved, hkeeps⟩ hstep
  obtain ⟨hmove, hkeeps'⟩ := keeps_step hkeeps hstep
  exact ⟨trans_of R hmoved hmove, hkeeps'⟩

/-- What a thread has returned keeps its promise. -/
theorem Keeps.returned (h : pool.Keeps R Q) {a : α}
    (hi : pool.threads[i]? = some (.stopped (.ok a))) : Q i a pool.shared :=
  h i _ hi a rfl _ (refl_of R _)

end

/-- A thread that nobody interrupts comes to its end as a whole. -/
theorem run_alone {threads : List (Thread σ ε α)} {m : Thread σ ε α} (s : σ)
    (hm : threads[i]? = some m) :
    ∃ n, run step ⟨threads, s⟩ (List.replicate n i) =
      some ⟨threads.set i (.stopped (m.whole s).1), (m.whole s).2⟩ := by
  induction m generalizing threads s with
  | stopped r =>
    obtain ⟨hlt, hget⟩ := List.getElem?_eq_some_iff.1 hm
    have hset : threads.set i (.stopped r) = threads := by
      rw [← hget, List.set_getElem_self]
    exact ⟨0, congrArg (fun threads => some (Pool.mk threads s)) hset.symm⟩
  | next move rest ih =>
    have hlt := (List.getElem?_eq_some_iff.1 hm).1
    obtain ⟨n, hn⟩ := ih s (move s) (List.getElem?_set_self hlt (a := rest s))
    refine ⟨n + 1, run_cons_eq_some.2 ⟨⟨threads.set i (rest s), move s⟩, ?_, ?_⟩⟩
    · simp [step, hm, Thread.advance]
    · rw [hn, List.set_set]
      rfl

/-- To take the threads one after the other is one of the schedules. -/
theorem exists_run_in_turn (done threads : List (Thread σ ε α)) (s : σ) :
    ∃ schedule after, run step ⟨done ++ threads, s⟩ schedule =
      some ⟨after, threads.foldl (fun s m => (m.whole s).2) s⟩ := by
  induction threads generalizing done s with
  | nil => exact ⟨[], done ++ [], rfl⟩
  | cons m threads ih =>
    have hm : (done ++ m :: threads)[done.length]? = some m := by simp
    obtain ⟨n, hn⟩ := run_alone s hm
    rw [List.set_append_right _ _ le_rfl, Nat.sub_self, List.set_cons_zero] at hn
    obtain ⟨schedule, after, hschedule⟩ := ih (done ++ [.stopped (m.whole s).1]) (m.whole s).2
    rw [List.append_assoc, List.singleton_append] at hschedule
    exact ⟨_, after, (run_append_of_eq_some hn).trans hschedule⟩

end Pool

end Interference
