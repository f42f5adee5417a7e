import TargetClickhouse.Inserts

/-!
# The bound on retries

The two retry wrappers under an endless sequence of outcomes.  With a positive
`insert_retry_max_tries` a wrapper makes at most that many attempts; with any other setting it never
gives up, so that the bound depends on the first attempt (`boundedRetry_iff`).
-/

namespace TargetClickhouse

open Effects Effects.Proc

/-! ## Attempts -/

/-- The world with the first outcomes of a sequence ahead of it. -/
def World.scripted (w : World) (outcomes : ℕ → Outcome) (N : ℕ) : World :=
  { w with script := (List.range N).map outcomes }

/-- What an attempt comes to. -/
def Outcome.result {α : Type} (a : α) : Outcome → Res Exn α
  | .returned _ => .ok a
  | .connectionError id => .raised (.connectionError id)
  | .failed id _ => .raised (.other id)

/-- The attempt could not connect. -/
def CannotConnect {α : Type} (res : Res Exn α) : Prop := ∃ id, res = .raised (.connectionError id)

/-- A step that sends one request, or stops without one. -/
inductive IsAttempt {α : Type} : Step α → Prop where
  | stops {res : Res Exn α} (hres : ¬ CannotConnect res) (hpending : res ≠ .pending) :
      IsAttempt fun w => (res, w)
  | sends (request : Request) (a : α) : IsAttempt (attempt request a)

section

variable {α : Type} {m : Step α} {request : Request} {a : α} {w : World}
  {outcomes : ℕ → Outcome}

theorem script_attempt (request : Request) (a : α) (w : World) :
    (attempt request a w).2.script = w.script.tail := by
  rcases hs : w.script with _ | ⟨o, rest⟩
  · rw [attempt_nil hs, hs]
    rfl
  · rw [attempt_cons hs]
    cases o <;> rfl

/-- Every attempt takes one outcome. -/
theorem script_after (request : Request) (a : α) (w : World) (k : ℕ) :
    (after (attempt request a) w k).script = w.script.drop k := by
  induction k with
  | zero => rfl
  | succ k ih => rw [after, script_attempt, ih, List.tail_drop]

theorem fst_attempt {o : Outcome} {rest : List Outcome} (h : w.script = o :: rest) :
    (attempt request a w).1 = o.result a := by
  rw [attempt_cons h]
  cases o <;> rfl

/-- The attempts see the outcomes in their order. -/
theorem fst_attempt_after {N k : ℕ} (hk : k < N) :
    (attempt request a (after (attempt request a) (w.scripted outcomes N) k)).1 =
      (outcomes k).result a := by
  have hlength : k < ((List.range N).map outcomes).length := by simpa using hk
  have hk' : ((List.range N).map outcomes)[k] = outcomes k := by simp
  have hscript : (after (attempt request a) (w.scripted outcomes N) k).script =
      outcomes k :: ((List.range N).map outcomes).drop (k + 1) := by
    rw [script_after, ← hk', ← List.drop_eq_getElem_cons hlength]
    rfl
  exact fst_attempt hscript

theorem cannotConnect_result_iff {o : Outcome} :
    CannotConnect (o.result a) ↔ o.isConnectionError = true := by
  cases o with
  | returned n => exact iff_of_false (fun ⟨_, h⟩ => by cases h) Bool.noConfusion
  | connectionError id => exact iff_of_true ⟨id, rfl⟩ rfl
  | failed id applied => exact iff_of_false (fun ⟨_, h⟩ => by cases h) Bool.noConfusion

theorem result_ne_pending (a : α) (o : Outcome) : o.result a ≠ .pending := by
  cases o <;> nofun

end

/-! ## The wrappers -/

/-- The wrapper of the attempts stops after at most `max 1 n` of them, at the first that returns or
raises another exception than a connection error, or at the last one. -/
def BoundedRetry {α : Type} (n : ℤ) (m wrapper : Step α) (w : World) (outcomes : ℕ → Outcome) :
    Prop :=
  ∃ last : ℕ, (last : ℤ) + 1 ≤ max 1 n ∧ ∀ N, last < N →
    let start := w.scripted outcomes N
    (∀ i < last, CannotConnect (m (after m start i)).1) ∧
      (m (after m start last)).1 ≠ .pending ∧
      (CannotConnect (m (after m start last)).1 → (last : ℤ) + 1 = max 1 n) ∧
      wrapper start = m (after m start last)

section

variable {α : Type} {m : Step α} {sink : Sink} {n : ℤ} {w : World} {outcomes : ℕ → Outcome}

/-- An attempt that is no connection error is the only one. -/
theorem withRetry_of_not_cannotConnect {s : World} (h : ¬ CannotConnect (m s).1) :
    sink.withRetry m s = m s := by
  refine retryLoop_stop fun e he hlisted => absurd ?_ h
  cases e <;> first | exact ⟨_, he⟩ | cases hlisted

/-- The last attempt under a positive bound. -/
theorem exists_last_attempt (hn : 1 ≤ n) (outcomes : ℕ → Outcome) :
    ∃ last : ℕ, (last : ℤ) + 1 ≤ n ∧
      (∀ i < last, (outcomes i).isConnectionError = true) ∧
      ((outcomes last).isConnectionError = true → (last : ℤ) + 1 = n) := by
  have hexists : ∃ i : ℕ, (outcomes i).isConnectionError = false ∨ (i : ℤ) + 1 = n :=
    ⟨(n - 1).toNat, Or.inr (by omega)⟩
  refine ⟨Nat.find hexists, ?_, fun i hi => ?_, fun hlast => ?_⟩
  · have hle : Nat.find hexists ≤ (n - 1).toNat :=
      Nat.find_min' hexists (Or.inr (by omega))
    omega
  · have hbefore := Nat.find_min hexists hi
    exact Bool.eq_true_of_not_eq_false fun h => hbefore (Or.inl h)
  · refine (Nat.find_spec hexists).resolve_left fun h => ?_
    exact absurd (hlast.symm.trans h) Bool.noConfusion

/-- The wrapper of a request stops at the last attempt. -/
theorem withRetry_attempt {request : Request} {a : α} (hn : sink.config.maxTries = some n)
    {last N : ℕ} (hlast : last < N) (hle : (last : ℤ) + 1 ≤ n)
    (hbefore : ∀ i < last, (outcomes i).isConnectionError = true)
    (hstop : (outcomes last).isConnectionError = true → (last : ℤ) + 1 = n) :
    sink.withRetry (attempt request a) (w.scripted outcomes N) =
      attempt request a (after (attempt request a) (w.scripted outcomes N) last) := by
  have hfuel : (w.scripted outcomes N).script.length + 1 = (N - last) + 1 + last := by
    simp only [World.scripted, List.length_map, List.length_range]
    omega
  rw [Sink.withRetry, hn, hfuel, retryLoop_after]
  · refine retryLoop_stop fun e he hlisted => ?_
    rw [fst_attempt_after hlast] at he
    have hconnect : CannotConnect ((outcomes last).result a) := by
      cases e <;> first | exact ⟨_, he⟩ | cases hlisted
    rw [← hstop (cannotConnect_result_iff.1 hconnect)]
    push_cast
    congr 1
    omega
  · intro i hi
    obtain ⟨id, hid⟩ := cannotConnect_result_iff (a := a).2 (hbefore i hi)
    refine ⟨⟨.connectionError id, ?_, rfl⟩, ?_⟩
    · rw [fst_attempt_after (by omega), hid]
    · rw [ne_eq, Option.some_inj]
      omega

/-- Without a positive bound, a wrapper whose first attempt cannot connect makes another one. -/
theorem withRetry_attempt_pending {request : Request} {a : α} (hn : sink.config.maxTries = some n)
    (hpos : ¬ 1 ≤ n) (hconnect : (outcomes 0).isConnectionError = true) :
    (sink.withRetry (attempt request a) (w.scripted outcomes 1)).1 = .pending := by
  have hscript : (after (attempt request a) (w.scripted outcomes 1) 1).script = [] := by
    rw [script_after]
    rfl
  have hpending := attempt_nil hscript request a
  have hfuel : (w.scripted outcomes 1).script.length + 1 = 1 + 1 := rfl
  rw [Sink.withRetry, hn, hfuel, retryLoop_after, retryLoop_stop, hpending]
  · intro e he
    rw [hpending] at he
    cases he
  · intro i hi
    obtain rfl : i = 0 := by omega
    obtain ⟨id, hid⟩ := cannotConnect_result_iff (a := a).2 hconnect
    refine ⟨⟨.connectionError id, ?_, rfl⟩, ?_⟩
    · rw [fst_attempt_after Nat.one_pos, hid]
    · rw [ne_eq, Option.some_inj]
      omega

/-- The attempts are bounded when the setting is positive, or the first one can connect. -/
theorem boundedRetry_iff_of_isAttempt (hm : IsAttempt m) (hn : sink.config.maxTries = some n) :
    BoundedRetry n m (sink.withRetry m) w outcomes ↔
      1 ≤ n ∨ ¬ CannotConnect (m (w.scripted outcomes 1)).1 := by
  cases hm with
  | @stops res hres hpending =>
    refine iff_of_true ⟨0, by omega, fun N _ => ⟨fun i hi => absurd hi (Nat.not_lt_zero i),
      hpending, fun h => absurd h hres, ?_⟩⟩ (Or.inr hres)
    exact withRetry_of_not_cannotConnect hres
  | sends request a =>
    have hfirst : ∀ N, 0 < N → (attempt request a (w.scripted outcomes N)).1 =
        (outcomes 0).result a := fun N hN => fst_attempt_after hN
    rw [hfirst 1 Nat.one_pos, cannotConnect_result_iff]
    constructor
    · rintro ⟨last, hle, h⟩
      by_contra hnot
      rw [not_or, not_not] at hnot
      obtain rfl : last = 0 := by omega
      obtain ⟨-, hne, -, hwrapper⟩ := h 1 Nat.one_pos
      rw [← hwrapper, withRetry_attempt_pending hn hnot.1 hnot.2] at hne
      exact hne rfl
    · intro h
      by_cases hpos : 1 ≤ n
      · obtain ⟨last, hle, hbefore, hstop⟩ := exists_last_attempt hpos outcomes
        refine ⟨last, by omega, fun N hN => ⟨fun i hi => ?_, ?_, fun hconnect => ?_, ?_⟩⟩
        · rw [fst_attempt_after (hi.trans hN)]
          exact cannotConnect_result_iff.2 (hbefore i hi)
        · rw [fst_attempt_after hN]
          exact result_ne_pending a _
        · rw [fst_attempt_after hN] at hconnect
          rw [max_eq_right hpos]
          exact hstop (cannotConnect_result_iff.1 hconnect)
        · exact withRetry_attempt hn hN hle hbefore hstop
      · have hzero := h.resolve_left hpos
        have hcan : ∀ N, 0 < N → ¬ CannotConnect (attempt request a (w.scripted outcomes N)).1 := by
          intro N hN
          rw [hfirst N hN]
          exact fun hconnect => hzero (cannotConnect_result_iff.1 hconnect)
        refine ⟨0, by omega, fun N hN => ⟨fun i hi => absurd hi (Nat.not_lt_zero i), ?_,
          fun hconnect => absurd hconnect (hcan N hN),
          withRetry_of_not_cannotConnect (hcan N hN)⟩⟩
        exact (hfirst N hN).symm ▸ result_ne_pending a _

/-! ## The two inserts -/

theorem conformNames_ne_connectionError {sdk : Sdk} {names : List String} {id : ℕ} :
    sdk.conformNames names ≠ .error (.connectionError id) := by
  unfold Sdk.conformNames
  dsimp only
  split_ifs <;> nofun

/-- A batch that cannot be conformed is no connection error. -/
theorem conformBatch_ne_connectionError {sdk : Sdk} {schema : Schema} {records : List Record}
    {id : ℕ} : sdk.conformBatch schema records ≠ .error (.connectionError id) := by
  intro h
  unfold Sdk.conformBatch at h
  rcases Dict.bind_eq_error h with h | ⟨columns, -, h⟩
  · unfold Sdk.conformedColumns at h
    rcases Dict.bind_eq_error h with h | ⟨properties, -, h⟩
    · rcases schema with b | ⟨type, format, _ | properties, items, anyOf, oneOf⟩ <;> cases h
    · exact conformNames_ne_connectionError h
  · rcases Dict.bind_eq_error h with h | ⟨conformed, -, h⟩
    · obtain ⟨record, -, h⟩ := Dict.exists_of_mapM_eq_error h
      unfold Sdk.conformRecord at h
      rcases Dict.bind_eq_error h with h | ⟨names, -, h⟩
      · exact conformNames_ne_connectionError h
      · cases h
    · cases h

theorem isAttempt_raise {e : Exn} (he : ∀ id, e ≠ .connectionError id) :
    IsAttempt (raise e : Step α) := by
  refine .stops (fun ⟨id, h⟩ => ?_) (by nofun)
  exact he id (Res.raised.inj h)

theorem isAttempt_bulkInsert (sdk : Sdk) (sink : Sink) (fullTableName : String) (schema : Schema)
    (records : List Record) :
    IsAttempt (sink.bulkInsertViaClickhouseConnect sdk fullTableName schema records) := by
  unfold Sink.bulkInsertViaClickhouseConnect
  split_ifs
  · exact .stops (fun ⟨id, h⟩ => by cases h) (by nofun)
  · rw [Sdk.columnData]
    rcases h : sdk.conformBatch schema records with e | ⟨columns, conformed⟩
    · refine isAttempt_raise ?_
      rintro id rfl
      exact conformBatch_ne_connectionError h
    · exact .sends _ _

theorem fullTableName_ne_connectionError {sink : Sink} {id : ℕ} :
    sink.fullTableName ≠ .error (.connectionError id) := by
  intro h
  unfold Sink.fullTableName at h
  split at h
  · cases h
  · dsimp only at h
    split_ifs at h
    cases h

theorem isAttempt_insertArrow (naming : Naming) (sink : Sink) (table : ArrowTable) :
    IsAttempt (sink.insertArrowViaClickhouseConnect naming table) := by
  unfold Sink.insertArrowViaClickhouseConnect
  rcases h : sink.fullTableName with e | name
  · refine isAttempt_raise ?_
    rintro id rfl
    exact fullTableName_ne_connectionError h
  · exact .sends _ _

end

/-- Both wrappers bound their attempts by `insert_retry_max_tries` exactly when it is positive, or
the first attempt is no connection error. -/
theorem Sink.boundedRetry_iff (sdk : Sdk) (naming : Naming) (sink : Sink) {n : ℤ}
    (hn : sink.config.maxTries = some n) (w : World) (outcomes : ℕ → Outcome) :
    (∀ fullTableName schema records,
      let m := sink.bulkInsertViaClickhouseConnect sdk fullTableName schema records
      BoundedRetry n m (sink.withRetry m) w outcomes ↔
        1 ≤ n ∨ ¬ CannotConnect (m (w.scripted outcomes 1)).1) ∧
    ∀ table,
      let m := sink.insertArrowViaClickhouseConnect naming table
      BoundedRetry n m (sink.withRetry m) w outcomes ↔
        1 ≤ n ∨ ¬ CannotConnect (m (w.scripted outcomes 1)).1 :=
  ⟨fun _ _ _ => boundedRetry_iff_of_isAttempt (isAttempt_bulkInsert sdk sink _ _ _) hn,
    fun _ => boundedRetry_iff_of_isAttempt (isAttempt_insertArrow naming sink _) hn⟩

/-- The sink of users with a setting for the retries. -/
def Sink.retrying (n : ℤ) : Sink :=
  ⟨{ insertRetryMaxTries := some (some n) }, .object [("id", .typed (.one .integer) none)],
    "users", none⟩

/-- At most two attempts, while the server is down. -/
theorem Sink.boundedRetry_two :
    (∀ fullTableName schema records,
      let m := (Sink.retrying 2).bulkInsertViaClickhouseConnect .verbatim fullTableName schema
        records
      BoundedRetry 2 m ((Sink.retrying 2).withRetry m) ⟨[], [], []⟩ Outcome.connectionError) ∧
    ∀ table,
      let m := (Sink.retrying 2).insertArrowViaClickhouseConnect .identifiers table
      BoundedRetry 2 m ((Sink.retrying 2).withRetry m) ⟨[], [], []⟩ Outcome.connectionError := by
  have h := Sink.boundedRetry_iff .verbatim .identifiers (Sink.retrying 2) rfl ⟨[], [], []⟩
    Outcome.connectionError
  exact ⟨fun name schema records => (h.1 name schema records).2 (Or.inl (by decide)),
    fun table => (h.2 table).2 (Or.inl (by decide))⟩

/-- With the setting 0 the attempts never end while the server is down. -/
theorem Sink.not_boundedRetry_zero :
    let m := (Sink.retrying 0).bulkInsertViaClickhouseConnect .verbatim "users"
      (Sink.retrying 0).schema [[("id", .int 1)]]
    ¬ BoundedRetry 0 m ((Sink.retrying 0).withRetry m) ⟨[], [], []⟩ Outcome.connectionError := by
  intro m hbounded
  have hm : IsAttempt m := isAttempt_bulkInsert _ _ _ _ _
  rcases (boundedRetry_iff_of_isAttempt hm rfl).1 hbounded with hpos | hconnects
  · exact absurd hpos (by decide)
  · exact hconnects ⟨0, rfl⟩

end TargetClickhouse
