import TargetClickhouse.Lib.Runs

/-!
# The accept loop of the SSH tunnel

The loop of `_forward_tunnel`, which accepts local connections and opens a channel for each, as a
system whose events are the ways its calls turn out, and calls of `stop`.

`survives_iff` says in which runs the loop outlives the failures of single connections.
-/

namespace TargetClickhouse

namespace AcceptLoop

/-- Why the thread of the loop ended. -/
inductive Cause where
  /-- The test of the stop event. -/
  | stopped
  | listenerFailed
  /-- An `OSError` of an accepted connection. -/
  | connectionFailed
  /-- An exception that no handler names. -/
  | uncaught
  deriving DecidableEq, Repr

/-- Where the loop is: before the test of the stop event, before `accept`, behind it with a
connection, or at its end. -/
inductive Phase where
  | testing
  | accepting
  | opening
  | ended (cause : Cause)
  deriving DecidableEq, Repr

/-- What became of an accepted connection: it was handed to a forwarding thread, closed, or neither.
-/
inductive Disposition where
  | forwarded
  | closed
  | abandoned
  deriving DecidableEq, Repr

/-- What `open_channel` raises. -/
inductive OpenError where
  | sshException
  | eofError
  | osError
  deriving DecidableEq, Repr

inductive Event where
  | test
  | acceptTimesOut
  | acceptYields
  /-- `settimeout` or `accept` raises an `OSError`. -/
  | listenerFails
  | transportMissing
  /-- `getpeername` raises an `OSError`. -/
  | peerGone
  | openRaises (e : OpenError)
  | opens
  /-- A call of `stop` by another thread. -/
  | stop
  deriving DecidableEq, Repr

end AcceptLoop

open AcceptLoop

structure AcceptLoop where
  phase : Phase := .testing
  stopEvent : Bool := false
  /-- How many connections `accept` has returned. -/
  accepted : ℕ := 0
  /-- What became of them, without the one that the loop holds. -/
  settled : List Disposition := []
  deriving DecidableEq, Repr

namespace AcceptLoop

variable (s : AcceptLoop)

def Enabled : AcceptLoop.Event → Prop
  | .test => s.phase = .testing
  | .acceptTimesOut => s.phase = .accepting
  | .acceptYields => s.phase = .accepting
  | .listenerFails => s.phase = .accepting
  | .transportMissing => s.phase = .opening
  | .peerGone => s.phase = .opening
  | .openRaises _ => s.phase = .opening
  | .opens => s.phase = .opening
  | .stop => True

instance (e : AcceptLoop.Event) : Decidable (s.Enabled e) := by
  cases e <;> unfold Enabled <;> infer_instance

/-- The loop is done with the connection it holds. -/
def settle (d : Disposition) : AcceptLoop := { s with phase := .testing, settled := s.settled ++ [d] }

/-- `except OSError`: the loop breaks, unless the stop event is set. -/
def handleOSError (cause : Cause) : AcceptLoop :=
  { s with phase := if s.stopEvent then .testing else .ended cause }

/-- The loop after an event. -/
def apply : AcceptLoop.Event → AcceptLoop
  | .test => { s with phase := if s.stopEvent then .ended .stopped else .accepting }
  | .acceptTimesOut => { s with phase := .testing }
  | .acceptYields => { s with phase := .opening, accepted := s.accepted + 1 }
  | .listenerFails => s.handleOSError .listenerFailed
  | .transportMissing => s.settle .closed
  | .peerGone => (s.settle .abandoned).handleOSError .connectionFailed
  | .openRaises .sshException => s.settle .closed
  | .openRaises .osError => (s.settle .abandoned).handleOSError .connectionFailed
  | .openRaises .eofError => { s.settle .abandoned with phase := .ended .uncaught }
  | .opens => s.settle .forwarded
  | .stop => { s with stopEvent := true }

def step (e : AcceptLoop.Event) : Option AcceptLoop :=
  if s.Enabled e then some (s.apply e) else none

variable {s} {s' : AcceptLoop} {e : AcceptLoop.Event} {events : List AcceptLoop.Event}

theorem step_eq_some : s.step e = some s' ↔ s.Enabled e ∧ s.apply e = s' := by
  unfold step
  split_ifs with h <;> simp [h]

/-- A loop that has not ended can go on without being stopped. -/
theorem exists_step (h : ∀ cause, s.phase ≠ .ended cause) :
    ∃ e s', e ≠ .stop ∧ s.step e = some s' := by
  cases hphase : s.phase with
  | testing => exact ⟨.test, _, by decide, step_eq_some.2 ⟨hphase, rfl⟩⟩
  | accepting => exact ⟨.acceptYields, _, by decide, step_eq_some.2 ⟨hphase, rfl⟩⟩
  | opening => exact ⟨.opens, _, by decide, step_eq_some.2 ⟨hphase, rfl⟩⟩
  | ended cause => exact absurd hphase (h cause)

/-! ## Failures of single connections -/

variable (s) in
/-- The loop has outlived the failures so far. -/
structure Survives : Prop where
  /-- It ends only after `stop` or a failure of the listening socket. -/
  ends : ∀ cause, s.phase = .ended cause → s.stopEvent = true ∨ cause = .listenerFailed
  /-- Until it is stopped, it hands every connection to a thread, or closes it. -/
  settles : s.stopEvent = false → .abandoned ∉ s.settled
  /-- No connection is forgotten. -/
  accounts : s.accepted = s.settled.length + if s.phase = .opening then 1 else 0

/-- The exceptions of a connection that its handlers do not name. -/
def Event.isUnhandled : AcceptLoop.Event → Bool
  | .peerGone => true
  | .openRaises .eofError => true
  | .openRaises .osError => true
  | _ => false

/-- No connection fails in such a way before the loop is stopped. -/
def FailsHandled (s : AcceptLoop) (e : AcceptLoop.Event) : Prop :=
  s.stopEvent = true ∨ Event.isUnhandled e = false

instance (s : AcceptLoop) (e : AcceptLoop.Event) : Decidable (FailsHandled s e) :=
  inferInstanceAs (Decidable (_ ∨ _))

theorem survives_start : Survives {} where
  ends := nofun
  settles := fun _ => List.not_mem_nil
  accounts := rfl

theorem Survives.settle (h : Survives s) (hphase : s.phase = .opening) {d : Disposition}
    (hd : s.stopEvent = false → d ≠ .abandoned) : Survives (s.settle d) where
  ends := nofun
  settles hstop := by
    show .abandoned ∉ s.settled ++ [d]
    rw [List.mem_append, List.mem_singleton, not_or]
    exact ⟨h.settles hstop, (hd hstop).symm⟩
  accounts := by
    have haccepted := h.accounts
    rw [if_pos hphase] at haccepted
    simp [AcceptLoop.settle, haccepted]

theorem Survives.setPhase (h : Survives s) {phase : Phase} (hopening : s.phase ≠ .opening)
    (hopening' : phase ≠ .opening)
    (hends : ∀ cause, phase = .ended cause → s.stopEvent = true ∨ cause = .listenerFailed) :
    Survives { s with phase := phase } where
  ends := hends
  settles := h.settles
  accounts := by
    have haccepted := h.accounts
    rw [if_neg hopening] at haccepted
    rw [if_neg hopening']
    exact haccepted

/-- A failure that no handler names ends the loop, unless it is being stopped. -/
theorem survives_unhandled_iff (h : Survives s) (hphase : s.phase = .opening) {phase : Phase}
    (hopening : phase ≠ .opening)
    (hends : s.stopEvent = false → ∃ cause, phase = .ended cause ∧ cause ≠ .listenerFailed) :
    Survives { s.settle .abandoned with phase := phase } ↔ s.stopEvent = true := by
  constructor
  · intro hsurvives
    by_contra hstop
    obtain ⟨cause, hcause, hne⟩ := hends (Bool.eq_false_of_not_eq_true hstop)
    exact (hsurvives.ends cause hcause).elim hstop hne
  · intro hstop
    have hsettled : Survives (s.settle .abandoned) :=
      h.settle hphase fun hfalse => absurd (hstop.symm.trans hfalse) Bool.noConfusion
    exact hsettled.setPhase nofun hopening fun _ _ => Or.inl hstop

/-- The loop outlives exactly the failures that its handlers name. -/
theorem survives_step (h : Survives s) (hs : s.step e = some s') :
    Survives s' ↔ FailsHandled s e := by
  obtain ⟨hen, rfl⟩ := step_eq_some.1 hs
  have hbreak : ∀ hphase : s.phase = .opening,
      Survives ((s.settle .abandoned).handleOSError .connectionFailed) ↔ s.stopEvent = true := by
    intro hphase
    refine survives_unhandled_iff h hphase ?_ fun hstop => ⟨.connectionFailed, ?_, by decide⟩
    · show (if s.stopEvent then Phase.testing else .ended .connectionFailed) ≠ .opening
      split_ifs <;> nofun
    · exact if_neg (Bool.eq_false_iff.1 hstop)
  cases e with
  | test =>
    have hphase : s.phase = .testing := hen
    refine iff_of_true (h.setPhase (by rw [hphase]; nofun) ?_ ?_) (Or.inr rfl)
    · split_ifs <;> nofun
    · intro cause hcause
      split_ifs at hcause with hstop
      exact Or.inl hstop
  | acceptTimesOut =>
    have hphase : s.phase = .accepting := hen
    exact iff_of_true (h.setPhase (by rw [hphase]; nofun) nofun nofun) (Or.inr rfl)
  | acceptYields =>
    have hphase : s.phase = .accepting := hen
    have haccepted := h.accounts
    rw [hphase] at haccepted
    exact iff_of_true ⟨nofun, h.settles, congrArg (· + 1) haccepted⟩ (Or.inr rfl)
  | listenerFails =>
    have hphase : s.phase = .accepting := hen
    refine iff_of_true (h.setPhase (by rw [hphase]; nofun) ?_ ?_) (Or.inr rfl)
    · split_ifs <;> nofun
    · intro cause hcause
      split_ifs at hcause
      exact Or.inr (Phase.ended.inj hcause).symm
  | transportMissing => exact iff_of_true (h.settle hen fun _ => by decide) (Or.inr rfl)
  | peerGone => exact (hbreak hen).trans (or_iff_left Bool.noConfusion).symm
  | openRaises error =>
    cases error with
    | sshException => exact iff_of_true (h.settle hen fun _ => by decide) (Or.inr rfl)
    | osError => exact (hbreak hen).trans (or_iff_left Bool.noConfusion).symm
    | eofError =>
      have huncaught : Survives { s.settle .abandoned with phase := .ended .uncaught } ↔
          s.stopEvent = true :=
        survives_unhandled_iff h hen nofun fun _ => ⟨.uncaught, rfl, by decide⟩
      exact huncaught.trans (or_iff_left Bool.noConfusion).symm
  | opens => exact iff_of_true (h.settle hen fun _ => by decide) (Or.inr rfl)
  | stop => exact iff_of_true ⟨fun _ _ => Or.inl rfl, nofun, h.accounts⟩ (Or.inr rfl)

/-- The loop keeps accepting in exactly the runs in which no connection fails otherwise before the
loop is stopped. -/
theorem survives_iff (hrun : Runs.run step {} events = some s) :
    Runs.Throughout step Survives {} events ↔ Runs.AllSteps step FailsHandled {} events :=
  Runs.throughout_iff_allSteps survives_step survives_start hrun

/-- A forwarded connection, a refused channel, and a stop. -/
theorem survives_refused :
    Runs.Throughout step Survives {} [.test, .acceptYields, .opens, .test, .acceptYields,
      .openRaises .sshException, .test, .acceptTimesOut, .stop, .test] :=
  (survives_iff (s := ⟨.ended .stopped, true, 2, [.forwarded, .closed]⟩) (by decide)).2 (by decide)

/-- A peer that has gone before its address is read ends the loop. -/
theorem not_survives_peerGone :
    Runs.run step {} [.test, .acceptYields, .peerGone] =
        some ⟨.ended .connectionFailed, false, 1, [.abandoned]⟩ ∧
      ¬ Runs.Throughout step Survives {} [.test, .acceptYields, .peerGone] := by
  refine ⟨by decide, fun h => ?_⟩
  have hends := (h.2 _ rfl).2 _ rfl
  have hsurvives : Survives ⟨.ended .connectionFailed, false, 1, [.abandoned]⟩ := hends.2 _ rfl
  exact hsurvives.settles rfl List.mem_cons_self

end AcceptLoop

end TargetClickhouse
