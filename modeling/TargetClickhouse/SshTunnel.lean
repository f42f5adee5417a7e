import TargetClickhouse.Lib.Runs

/-!
# Forwarding a connection through the SSH tunnel

The two loops of `_forward_data`, each of which receives from one endpoint of a connection and sends
to the other, as a system whose events are the calls of the loops and the sends of the two ends.
A `send` accepts any non-empty prefix of the data it is given, and the loops do not look at how much
it accepted.

`forwarded_iff` says for which runs a loop that reached the end of its input has forwarded all it
received, and `intact_of_run` for which runs no byte of either end is lost.
-/

namespace TargetClickhouse

/-! ## The system -/

/-- The endpoints that a connection's loops share. -/
inductive Endpoint where
  | localSocket
  | channel
  deriving DecidableEq, Repr

/-- `forward_local_to_remote` and `forward_remote_to_local`. -/
inductive Loop where
  | localToRemote
  | remoteToLocal
  deriving DecidableEq, Repr

namespace Loop

/-- Where the loop receives. -/
def source : Loop → Endpoint
  | localToRemote => .localSocket
  | remoteToLocal => .channel

/-- Where the loop sends, and what it closes when its input ends. -/
def target : Loop → Endpoint
  | localToRemote => .channel
  | remoteToLocal => .localSocket

end Loop

structure EndpointState where
  /-- What the end behind the endpoint has sent. -/
  sent : List UInt8 := []
  /-- What of it no `recv` has returned yet. -/
  incoming : List UInt8 := []
  /-- What the `send`s on the endpoint have accepted for that end. -/
  delivered : List UInt8 := []
  /-- The end has finished sending. -/
  finished : Bool := false
  /-- The endpoint was closed by `close`. -/
  closed : Bool := false
  deriving DecidableEq, Repr

/-- Where a loop is: before a `recv`, before the `send` of what it received, before its `close`,
behind it, or behind an exception. -/
inductive Phase where
  | receiving
  | sending (data : List UInt8)
  | closing
  | done
  | failed (data : List UInt8)
  deriving DecidableEq, Repr

namespace Phase

/-- The data that the loop holds. -/
def held : Phase → List UInt8
  | sending data => data
  | failed data => data
  | _ => []

def isSending : Phase → Bool
  | sending _ => true
  | _ => false

def isOver : Phase → Bool
  | done => true
  | failed _ => true
  | _ => false

end Phase

structure LoopState where
  phase : Phase := .receiving
  /-- The chunks it has received, one after the other. -/
  received : List UInt8 := []
  deriving DecidableEq, Repr

structure Connection where
  endpoint : Endpoint → EndpointState
  loop : Loop → LoopState

/-- What can happen next.  `recv` returns at most `extra + 1` bytes, and `send` accepts at most
`extra + 1` bytes. -/
inductive Event where
  | peerSends (e : Endpoint) (bytes : List UInt8)
  | peerFinishes (e : Endpoint)
  | recv (d : Loop) (extra : ℕ)
  | recvEnds (d : Loop)
  | recvRaises (d : Loop)
  | send (d : Loop) (extra : ℕ)
  | sendRaises (d : Loop)
  | close (d : Loop)
  /-- The `finally` of `_forward_data`, after both threads have ended. -/
  | closeBoth
  deriving DecidableEq, Repr

namespace Connection

/-- A connection whose loops have just been started. -/
def opened : Connection := ⟨fun _ => {}, fun _ => {}⟩

variable (c : Connection)

def setEndpoint (e : Endpoint) (s : EndpointState) : Connection :=
  { c with endpoint := Function.update c.endpoint e s }

def setLoop (d : Loop) (l : LoopState) : Connection :=
  { c with loop := Function.update c.loop d l }

/-- Calls on an endpoint raise only after it was closed.  What a `recv` on a closed endpoint does is
left open: it raises, it returns data that had arrived, or it returns no data. -/
def Enabled : Event → Prop
  | .peerSends e _ => (c.endpoint e).finished = false
  | .peerFinishes e => (c.endpoint e).finished = false
  | .recv d _ => (c.loop d).phase = .receiving ∧ (c.endpoint d.source).incoming ≠ []
  | .recvEnds d => (c.loop d).phase = .receiving ∧ ((c.endpoint d.source).closed = true ∨
      (c.endpoint d.source).incoming = [] ∧ (c.endpoint d.source).finished = true)
  | .recvRaises d => (c.loop d).phase = .receiving ∧ (c.endpoint d.source).closed = true
  | .send d _ => (c.loop d).phase.isSending = true ∧ (c.endpoint d.target).closed = false
  | .sendRaises d => (c.loop d).phase.isSending = true ∧ (c.endpoint d.target).closed = true
  | .close d => (c.loop d).phase = .closing
  | .closeBoth => ∀ d, (c.loop d).phase.isOver = true

instance decidableForallLoop (p : Loop → Prop) [DecidablePred p] : Decidable (∀ d, p d) :=
  decidable_of_iff (p .localToRemote ∧ p .remoteToLocal)
    ⟨fun h d => by cases d with | localToRemote => exact h.1 | remoteToLocal => exact h.2,
      fun h => ⟨h _, h _⟩⟩

instance (e : Event) : Decidable (c.Enabled e) := by
  cases e <;> unfold Enabled <;> infer_instance

/-- The connection after an event.  What a peer sends after a close is gone; a `recv` that was blocked
when the socket was closed may return some of it in the code, which the model leaves out. -/
def apply : Event → Connection
  | .peerSends e bytes =>
      let s := c.endpoint e
      c.setEndpoint e { s with
        sent := s.sent ++ bytes
        incoming := if s.closed then s.incoming else s.incoming ++ bytes }
  | .peerFinishes e => c.setEndpoint e { c.endpoint e with finished := true }
  | .recv d extra =>
      let s := c.endpoint d.source
      -- `recv(4096)`
      let data := s.incoming.take (min (extra + 1) 4096)
      (c.setEndpoint d.source { s with incoming := s.incoming.drop (min (extra + 1) 4096) }).setLoop
        d ⟨.sending data, (c.loop d).received ++ data⟩
  | .recvEnds d => c.setLoop d { c.loop d with phase := .closing }
  | .recvRaises d => c.setLoop d { c.loop d with phase := .failed [] }
  | .send d extra =>
      let s := c.endpoint d.target
      let accepted := (c.loop d).phase.held.take (extra + 1)
      (c.setEndpoint d.target { s with delivered := s.delivered ++ accepted }).setLoop d
        { c.loop d with phase := .receiving }
  | .sendRaises d => c.setLoop d { c.loop d with phase := .failed (c.loop d).phase.held }
  | .close d =>
      (c.setEndpoint d.target { c.endpoint d.target with closed := true }).setLoop d
        { c.loop d with phase := .done }
  | .closeBoth => { c with endpoint := fun e => { c.endpoint e with closed := true } }

def step (e : Event) : Option Connection := if c.Enabled e then some (c.apply e) else none

variable {c}

theorem step_eq_some {c' : Connection} {e : Event} :
    c.step e = some c' ↔ c.Enabled e ∧ c.apply e = c' := by
  unfold step
  split_ifs with h
  · simp [h]
  · simp [h]

@[simp] theorem endpoint_setEndpoint (e e' : Endpoint) (s : EndpointState) :
    (c.setEndpoint e s).endpoint e' = if e' = e then s else c.endpoint e' :=
  Function.update_apply ..

@[simp] theorem loop_setEndpoint (e : Endpoint) (s : EndpointState) :
    (c.setEndpoint e s).loop = c.loop := rfl

@[simp] theorem endpoint_setLoop (d : Loop) (l : LoopState) :
    (c.setLoop d l).endpoint = c.endpoint := rfl

@[simp] theorem loop_setLoop (d d' : Loop) (l : LoopState) :
    (c.setLoop d l).loop d' = if d' = d then l else c.loop d' :=
  Function.update_apply ..

end Connection

/-! ## One loop -/

namespace Loop

@[simp] theorem target_eq_iff {d d' : Loop} : d'.target = d.target ↔ d' = d := by
  cases d <;> cases d' <;> decide

@[simp] theorem source_eq_iff {d d' : Loop} : d'.source = d.source ↔ d' = d := by
  cases d <;> cases d' <;> decide

/-- The endpoint that one loop closes is the one that the other receives from. -/
@[simp] theorem target_eq_source_iff {d d' : Loop} : d'.target = d.source ↔ d' ≠ d := by
  cases d <;> cases d' <;> decide

@[simp] theorem source_eq_target_iff {d d' : Loop} : d'.source = d.target ↔ d' ≠ d := by
  cases d <;> cases d' <;> decide

end Loop

namespace Connection

variable {c c' : Connection} {d : Loop} {e : Event} {events : List Event}

/-- What a loop has forwarded, holds, and has not received yet. -/
def delivered (d : Loop) (c : Connection) : List UInt8 := (c.endpoint d.target).delivered

def held (d : Loop) (c : Connection) : List UInt8 := (c.loop d).phase.held

def received (d : Loop) (c : Connection) : List UInt8 := (c.loop d).received

def incoming (d : Loop) (c : Connection) : List UInt8 := (c.endpoint d.source).incoming

/-- What the end at the loop's source has sent. -/
def sent (d : Loop) (c : Connection) : List UInt8 := (c.endpoint d.source).sent

/-- What the step drops of a chunk of the loop. -/
def dropped (d : Loop) (c : Connection) : Event → List UInt8
  | .send d' extra => if d' = d then (c.held d).drop (extra + 1) else []
  | _ => []

/-- What the end at the loop's source sends in the step although the endpoint was closed. -/
def missed (d : Loop) (c : Connection) : Event → List UInt8
  | .peerSends e bytes => if e = d.source ∧ (c.endpoint e).closed = true then bytes else []
  | _ => []

section Flow

attribute [local simp] sent incoming received delivered held missed dropped apply

/-- How the bytes of one direction move in a step: `fresh` ones arrive, `new` ones are received. -/
theorem flow_step (d : Loop) (h : c.step e = some c') :
    ∃ fresh new, c'.sent d = c.sent d ++ fresh ++ c.missed d e ∧
      new ++ c'.incoming d = c.incoming d ++ fresh ∧
      c'.received d = c.received d ++ new ∧
      c'.delivered d ++ c'.held d ++ c.dropped d e = c.delivered d ++ c.held d ++ new := by
  obtain ⟨hen, rfl⟩ := step_eq_some.1 h
  cases e with
  | peerSends e bytes =>
    refine ⟨if e = d.source ∧ (c.endpoint e).closed = false then bytes else [], [], ?_⟩
    by_cases hs : d.source = e
    · subst hs
      by_cases hc : (c.endpoint d.source).closed = true <;> simp [hc]
    · by_cases ht : d.target = e <;> simp [hs, ht, Ne.symm hs]
  | peerFinishes e =>
    refine ⟨[], [], ?_⟩
    by_cases hs : d.source = e <;> by_cases ht : d.target = e <;> simp [hs, ht]
  | recv d' extra =>
    by_cases hd : d = d'
    · subst hd
      refine ⟨[], (c.incoming d).take (min (extra + 1) 4096), ?_⟩
      simp [hen.1, Phase.held]
    · refine ⟨[], [], ?_⟩
      have ht := Loop.target_eq_source_iff.2 hd
      simp [hd, ht]
  | recvEnds d' =>
    refine ⟨[], [], ?_⟩
    by_cases hd : d = d'
    · subst hd
      simp [hen.1, Phase.held]
    · simp [hd]
  | recvRaises d' =>
    refine ⟨[], [], ?_⟩
    by_cases hd : d = d'
    · subst hd
      simp [hen.1, Phase.held]
    · simp [hd]
  | send d' extra =>
    refine ⟨[], [], ?_⟩
    by_cases hd : d = d'
    · subst hd
      simp [Phase.held]
    · have hs := Loop.source_eq_target_iff.2 hd
      simp [hd, Ne.symm hd, hs]
  | sendRaises d' =>
    refine ⟨[], [], ?_⟩
    by_cases hd : d = d'
    · subst hd
      simp [Phase.held]
    · simp [hd]
  | close d' =>
    refine ⟨[], [], ?_⟩
    by_cases hd : d = d'
    · subst hd
      simp [show _ = _ from hen, Phase.held]
    · have hs := Loop.source_eq_target_iff.2 hd
      simp [hd, hs]
  | closeBoth =>
    refine ⟨[], [], ?_⟩
    simp

end Flow

/-! ## Faithful forwarding -/

/-- If the step is a `send` of the loop, it accepts the whole chunk. -/
def AcceptsWhole (d : Loop) (c : Connection) : Event → Prop
  | .send d' extra => d' = d → (c.held d).length ≤ extra + 1
  | _ => True

instance (d : Loop) (c : Connection) (e : Event) : Decidable (AcceptsWhole d c e) := by
  cases e <;> unfold AcceptsWhole <;> infer_instance

theorem acceptsWhole_iff : AcceptsWhole d c e ↔ c.dropped d e = [] := by
  cases e with
  | send d' extra => by_cases hd : d' = d <;> simp [AcceptsWhole, dropped, hd]
  | _ => simp [AcceptsWhole, dropped]

/-- How many received bytes the loop neither holds nor has forwarded. -/
def deficit (d : Loop) (c : Connection) : ℤ :=
  (c.received d).length - (c.held d).length - (c.delivered d).length

theorem deficit_step (d : Loop) (h : c.step e = some c') :
    c'.deficit d = c.deficit d + (c.dropped d e).length := by
  obtain ⟨fresh, new, -, -, hrec, hdel⟩ := flow_step d h
  have hlen := congrArg List.length hdel
  simp only [List.length_append] at hlen
  rw [deficit, deficit, hrec, List.length_append]
  omega

theorem deficit_eq_zero_iff (hrun : Runs.run step opened events = some c) :
    c.deficit d = 0 ↔ Runs.AllSteps step (AcceptsWhole d) opened events := by
  refine Runs.measure_eq_iff_allSteps (deficit d) ?_ ?_ hrun
  · intro c e c' hs hw
    rw [deficit_step d hs, acceptsWhole_iff.1 hw]
    simp
  · intro c e c' hs hw
    have hpos := List.length_pos_iff.2 fun h => hw (acceptsWhole_iff.2 h)
    rw [deficit_step d hs]
    omega

theorem received_eq (hrun : Runs.run step opened events = some c)
    (hall : Runs.AllSteps step (AcceptsWhole d) opened events) :
    c.received d = c.delivered d ++ c.held d := by
  refine Runs.invariant_of_run (P := fun c => c.received d = c.delivered d ++ c.held d) ?_ rfl
    hall hrun
  intro c e c' hc hw hs
  obtain ⟨fresh, new, -, -, hrec, hdel⟩ := flow_step d hs
  rw [acceptsWhole_iff.1 hw, List.append_nil] at hdel
  rw [hrec, hdel, hc]

/-- A loop that has reached the end of its input has forwarded exactly the chunks it received when
every one of its sends accepted the whole chunk, and in no other case. -/
theorem forwarded_iff (hrun : Runs.run step opened events = some c)
    (hend : (c.loop d).phase = .closing ∨ (c.loop d).phase = .done) :
    c.delivered d = c.received d ↔ Runs.AllSteps step (AcceptsWhole d) opened events := by
  have hheld : c.held d = [] := by
    rcases hend with h | h <;> simp [held, h, Phase.held]
  constructor
  · intro heq
    rw [← deficit_eq_zero_iff hrun, deficit, hheld, heq]
    simp
  · intro hall
    rw [received_eq hrun hall, hheld, List.append_nil]

/-- A run in which the local end sends three bytes, which are received in two chunks. -/
theorem acceptsWhole_two_chunks :
    Runs.AllSteps step (AcceptsWhole .localToRemote) opened
      [.peerSends .localSocket [1, 2, 3], .recv .localToRemote 1, .send .localToRemote 1,
        .recv .localToRemote 9, .peerFinishes .localSocket, .send .localToRemote 0,
        .recvEnds .localToRemote, .close .localToRemote] := by
  have hrun : (Runs.run step opened
      [.peerSends .localSocket [1, 2, 3], .recv .localToRemote 1, .send .localToRemote 1,
        .recv .localToRemote 9, .peerFinishes .localSocket, .send .localToRemote 0,
        .recvEnds .localToRemote, .close .localToRemote]).map (fun c =>
          ((c.loop .localToRemote).phase, c.received .localToRemote, c.delivered .localToRemote)) =
      some (.done, [1, 2, 3], [1, 2, 3]) := by decide
  obtain ⟨c, hc, hstate⟩ := Option.map_eq_some_iff.1 hrun
  simp only [Prod.mk.injEq] at hstate
  obtain ⟨hphase, hrec, hdel⟩ := hstate
  exact (forwarded_iff hc (Or.inr hphase)).1 (hdel.trans hrec.symm)

/-- A send that accepts one of two bytes: the loop ends without an exception, and the second byte
is never sent. -/
theorem not_forwarded_short_send :
    ¬ ∀ (events : List Event) (c : Connection) (d : Loop), Runs.run step opened events = some c →
      (c.loop d).phase = .closing ∨ (c.loop d).phase = .done → c.delivered d = c.received d := by
  intro h
  have hrun : (Runs.run step opened
      [.peerSends .localSocket [1, 2], .peerFinishes .localSocket, .recv .localToRemote 9,
        .send .localToRemote 0, .recvEnds .localToRemote, .close .localToRemote]).map (fun c =>
          ((c.loop .localToRemote).phase, c.received .localToRemote, c.delivered .localToRemote)) =
      some (.done, [1, 2], [1]) := by decide
  obtain ⟨c, hc, hstate⟩ := Option.map_eq_some_iff.1 hrun
  simp only [Prod.mk.injEq] at hstate
  obtain ⟨hphase, hrec, hdel⟩ := hstate
  have heq := h _ c _ hc (Or.inr hphase)
  rw [hrec, hdel] at heq
  exact absurd heq (by decide)

/-! ## Both directions -/

/-- If the step closes the loop's target or is a send of the end behind a closed endpoint, it does
so in order: an endpoint is closed when all that the end behind it sent was received, and that end
sends nothing afterwards. -/
def ClosesInOrder (c : Connection) : Event → Prop
  | .close d => (c.endpoint d.target).incoming = []
  | .peerSends e _ => (c.endpoint e).closed = false
  | _ => True

instance (c : Connection) (e : Event) : Decidable (ClosesInOrder c e) := by
  cases e <;> unfold ClosesInOrder <;> infer_instance

/-- Nothing of what the end at the loop's source sent is lost. -/
structure Intact (d : Loop) (c : Connection) : Prop where
  /-- What it sent has been delivered, is held by the loop, or is still to be received. -/
  pipe : c.delivered d ++ c.held d ++ c.incoming d = c.sent d
  /-- A loop that has ended has delivered everything. -/
  ended : (c.loop d).phase.isOver = true → c.delivered d = c.sent d

/-- The invariant of runs that close in order. -/
structure Orderly (d : Loop) (c : Connection) : Prop where
  pipe : c.delivered d ++ c.held d ++ c.incoming d = c.sent d
  closed_source : (c.endpoint d.source).closed = true → c.incoming d = []
  closed_target : (c.endpoint d.target).closed = true → (c.loop d).phase.isOver = true
  ended : (c.loop d).phase = .closing ∨ (c.loop d).phase.isOver = true →
    c.held d = [] ∧ c.incoming d = [] ∧
      ((c.endpoint d.source).closed = true ∨ (c.endpoint d.source).finished = true)

theorem Orderly.intact (h : Orderly d c) : Intact d c := by
  refine ⟨h.pipe, fun hover => ?_⟩
  obtain ⟨hheld, hin, -⟩ := h.ended (Or.inr hover)
  have hpipe := h.pipe
  rwa [hheld, hin, List.append_nil, List.append_nil] at hpipe

/-! What each part of the invariant needs of a step. -/

section Invariant

attribute [local simp] apply incoming held

theorem closed_source_step (hc : Orderly d c) (ho : ClosesInOrder c e) (hen : c.Enabled e) :
    ((c.apply e).endpoint d.source).closed = true → (c.apply e).incoming d = [] := by
  have hsrc := hc.closed_source
  cases e with
  | peerSends e bytes =>
    by_cases hs : d.source = e
    · subst hs
      simp [show _ = _ from ho]
    · simpa [hs] using hsrc
  | peerFinishes e =>
    by_cases hs : d.source = e
    · subst hs
      simpa using hsrc
    · simpa [hs] using hsrc
  | recv d' extra =>
    by_cases hd : d = d'
    · subst hd
      intro hcl
      exact absurd (hsrc (by simpa using hcl)) hen.2
    · simpa [hd] using hsrc
  | recvEnds d' => exact hsrc
  | recvRaises d' => exact hsrc
  | send d' extra =>
    by_cases hd : d = d'
    · subst hd
      simpa using hsrc
    · have hs := Loop.source_eq_target_iff.2 hd
      simpa [hd, ← hs] using hsrc
  | sendRaises d' => exact hsrc
  | close d' =>
    by_cases hd : d = d'
    · subst hd
      simpa using hsrc
    · -- the other loop closes what this one receives from
      have hs := Loop.source_eq_target_iff.2 hd
      simpa [hd, hs, ClosesInOrder] using ho
  | closeBoth => exact fun _ => (hc.ended (Or.inr (hen d))).2.1

theorem closed_target_step (hc : Orderly d c) (hen : c.Enabled e) :
    ((c.apply e).endpoint d.target).closed = true → ((c.apply e).loop d).phase.isOver = true := by
  have htgt := hc.closed_target
  cases e with
  | peerSends e bytes =>
    by_cases ht : d.target = e
    · subst ht
      simpa using htgt
    · simpa [ht] using htgt
  | peerFinishes e =>
    by_cases ht : d.target = e
    · subst ht
      simpa using htgt
    · simpa [ht] using htgt
  | recv d' extra =>
    by_cases hd : d = d'
    · subst hd
      simpa [hen.1, Phase.isOver] using htgt
    · have ht := Loop.target_eq_source_iff.2 hd
      simpa [hd, ← ht] using htgt
  | recvEnds d' =>
    by_cases hd : d = d'
    · subst hd
      simpa [hen.1, Phase.isOver] using htgt
    · simpa [hd] using htgt
  | recvRaises d' =>
    by_cases hd : d = d'
    · simp [hd, Phase.isOver]
    · simpa [hd] using htgt
  | send d' extra =>
    by_cases hd : d = d'
    · subst hd
      simp [hen.2]
    · simpa [hd] using htgt
  | sendRaises d' =>
    by_cases hd : d = d'
    · simp [hd, Phase.isOver]
    · simpa [hd] using htgt
  | close d' =>
    by_cases hd : d = d'
    · simp [hd, Phase.isOver]
    · simpa [hd] using htgt
  | closeBoth => exact fun _ => hen d

theorem ended_step (hc : Orderly d c) (ho : ClosesInOrder c e) (hen : c.Enabled e) :
    ((c.apply e).loop d).phase = .closing ∨ ((c.apply e).loop d).phase.isOver = true →
      (c.apply e).held d = [] ∧ (c.apply e).incoming d = [] ∧
        (((c.apply e).endpoint d.source).closed = true ∨
          ((c.apply e).endpoint d.source).finished = true) := by
  have hend := hc.ended
  cases e with
  | peerSends e bytes =>
    by_cases hs : d.source = e
    · subst hs
      intro hphase
      rcases (hend hphase).2.2 with hcl | hfin
      · exact absurd hcl (by simp [show _ = _ from ho])
      · exact absurd hfin (by simp [show _ = _ from hen])
    · simpa [hs] using hend
  | peerFinishes e =>
    by_cases hs : d.source = e
    · subst hs
      intro hphase
      obtain ⟨hheld, hin, -⟩ := hend hphase
      exact ⟨hheld, by simpa using hin, by simp⟩
    · simpa [hs] using hend
  | recv d' extra =>
    by_cases hd : d = d'
    · simp [hd, Phase.isOver]
    · simpa [hd] using hend
  | recvEnds d' =>
    by_cases hd : d = d'
    · subst hd
      intro _
      refine ⟨by simp [Phase.held], ?_, ?_⟩
      · rcases hen.2 with hcl | hfin
        · exact hc.closed_source hcl
        · exact hfin.1
      · exact hen.2.imp_right And.right
    · simpa [hd] using hend
  | recvRaises d' =>
    by_cases hd : d = d'
    · subst hd
      intro _
      exact ⟨by simp [Phase.held], hc.closed_source hen.2, Or.inl hen.2⟩
    · simpa [hd] using hend
  | send d' extra =>
    by_cases hd : d = d'
    · simp [hd, Phase.isOver]
    · have hs := Loop.source_eq_target_iff.2 hd
      simpa [hd, ← hs] using hend
  | sendRaises d' =>
    by_cases hd : d = d'
    · -- a loop does not send to an endpoint that was closed before it ended
      subst hd
      have hover := hc.closed_target hen.2
      have hsending := hen.1
      cases hp : (c.loop d).phase <;> simp [hp, Phase.isOver, Phase.isSending] at hover hsending
    · simpa [hd] using hend
  | close d' =>
    by_cases hd : d = d'
    · subst hd
      intro _
      obtain ⟨-, hin, hsrc⟩ := hend (Or.inl hen)
      exact ⟨by simp [Phase.held], by simpa using hin, by simpa using hsrc⟩
    · have hs := Loop.source_eq_target_iff.2 hd
      intro hphase
      obtain ⟨hheld, hin, -⟩ := hend (by simpa [hd] using hphase)
      exact ⟨by simpa [hd] using hheld, by simpa [hs] using hin, Or.inl (by simp [hs])⟩
  | closeBoth =>
    intro _
    obtain ⟨hheld, hin, -⟩ := hend (Or.inr (hen d))
    exact ⟨hheld, hin, Or.inl rfl⟩

end Invariant

theorem orderly_step (hc : ∀ d, Orderly d c) (hw : ∀ d, AcceptsWhole d c e)
    (ho : ClosesInOrder c e) (h : c.step e = some c') (d : Loop) : Orderly d c' := by
  have hpipe : c'.delivered d ++ c'.held d ++ c'.incoming d = c'.sent d := by
    obtain ⟨fresh, new, hsent, hin, -, hdel⟩ := flow_step d h
    have hmissed : c.missed d e = [] := by
      cases e with
      | peerSends e bytes => simp [missed, show _ = _ from ho]
      | _ => rfl
    rw [acceptsWhole_iff.1 (hw d), List.append_nil] at hdel
    rw [hmissed, List.append_nil] at hsent
    rw [hdel, hsent, ← (hc d).pipe, List.append_assoc, hin]
    simp only [List.append_assoc]
  obtain ⟨hen, rfl⟩ := step_eq_some.1 h
  exact ⟨hpipe, closed_source_step (hc d) ho hen, closed_target_step (hc d) hen,
    ended_step (hc d) ho hen⟩

/-- When all sends are complete and every endpoint is closed in order, no byte of either end is
lost, whatever the interleaving. -/
theorem intact_of_run (hrun : Runs.run step opened events = some c)
    (hsends : Runs.AllSteps step (fun c e => ∀ d, AcceptsWhole d c e) opened events)
    (hcloses : Runs.AllSteps step ClosesInOrder opened events) (d : Loop) : Intact d c := by
  have horderly : ∀ d, Orderly d c := by
    refine Runs.invariant_of_run (P := fun c => ∀ d, Orderly d c) ?_ ?_ (hsends.and hcloses) hrun
    · exact fun hc hcond hs => orderly_step hc hcond.1 hcond.2 hs
    · intro d
      exact ⟨rfl, fun _ => rfl, by simp [opened], by simp [opened, Phase.isOver]⟩
  exact (horderly d).intact

/-- A request and its answer, after which the remote end finishes first. -/
theorem intact_request_answer :
    ∃ c, Runs.run step opened
      [.peerSends .localSocket [1], .recv .localToRemote 9, .send .localToRemote 9,
        .peerSends .channel [2, 3], .peerFinishes .channel, .recv .remoteToLocal 9,
        .peerFinishes .localSocket, .send .remoteToLocal 1, .recvEnds .localToRemote,
        .close .localToRemote, .recvEnds .remoteToLocal, .close .remoteToLocal, .closeBoth] =
        some c ∧ ∀ d, Intact d c := by
  have hrun : (Runs.run step opened
      [.peerSends .localSocket [1], .recv .localToRemote 9, .send .localToRemote 9,
        .peerSends .channel [2, 3], .peerFinishes .channel, .recv .remoteToLocal 9,
        .peerFinishes .localSocket, .send .remoteToLocal 1, .recvEnds .localToRemote,
        .close .localToRemote, .recvEnds .remoteToLocal, .close .remoteToLocal,
        .closeBoth]).isSome = true := by decide
  obtain ⟨c, hc⟩ := Option.isSome_iff_exists.1 hrun
  exact ⟨c, hc, fun d => intact_of_run hc (by decide) (by decide) d⟩

/-- The local end finishes first: its loop closes the channel, and the answer that the remote end
sends afterwards never reaches the local end. -/
theorem not_intact_half_closed :
    ¬ ∀ (events : List Event) (c : Connection) (d : Loop), Runs.run step opened events = some c →
      Runs.AllSteps step (fun c e => ∀ d, AcceptsWhole d c e) opened events → Intact d c := by
  intro h
  have hrun : (Runs.run step opened
      [.peerFinishes .localSocket, .recvEnds .localToRemote, .close .localToRemote,
        .peerSends .channel [7], .peerFinishes .channel, .recvRaises .remoteToLocal,
        .closeBoth]).map (fun c => ((c.loop .remoteToLocal).phase, c.delivered .remoteToLocal,
          c.sent .remoteToLocal)) = some (.failed [], [], [7]) := by decide
  obtain ⟨c, hc, hstate⟩ := Option.map_eq_some_iff.1 hrun
  simp only [Prod.mk.injEq] at hstate
  obtain ⟨hphase, hdel, hsent⟩ := hstate
  have hended := (h _ c .remoteToLocal hc (by decide)).ended (by rw [hphase]; rfl)
  rw [hdel, hsent] at hended
  exact absurd hended (by decide)

/-- A loop whose input has ended is never stuck before it is over. -/
theorem exists_enabled (hfin : (c.endpoint d.source).finished = true)
    (hover : (c.loop d).phase.isOver ≠ true) :
    c.Enabled (.recv d 0) ∨ c.Enabled (.recvEnds d) ∨ c.Enabled (.send d 0) ∨
      c.Enabled (.sendRaises d) ∨ c.Enabled (.close d) := by
  cases hp : (c.loop d).phase with
  | receiving =>
    by_cases hin : (c.endpoint d.source).incoming = []
    · exact Or.inr (Or.inl ⟨hp, Or.inr ⟨hin, hfin⟩⟩)
    · exact Or.inl ⟨hp, hin⟩
  | sending data =>
    cases hcl : (c.endpoint d.target).closed with
    | false => exact Or.inr (Or.inr (Or.inl ⟨by rw [hp]; rfl, hcl⟩))
    | true => exact Or.inr (Or.inr (Or.inr (Or.inl ⟨by rw [hp]; rfl, hcl⟩)))
  | closing => exact Or.inr (Or.inr (Or.inr (Or.inr hp)))
  | done => exact absurd (by rw [hp]; rfl) hover
  | failed data => exact absurd (by rw [hp]; rfl) hover

end Connection

end TargetClickhouse
