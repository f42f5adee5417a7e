import TargetClickhouse.AcceptLoop
import TargetClickhouse.SshTunnel
import TargetClickhouse.Lib.Families

/-!
# The tunnel with all its connections

A started tunnel: the thread of its accept loop and, for every connection that the loop has handed
over, the two threads that forward it.  `isolated_of_run` says that in every interleaving each
connection behaves as if it were the only one, and that its ends get nothing but each other's bytes.
-/

namespace TargetClickhouse

namespace Connection

/-- What can happen to a connection of a tunnel: a step of its own, or the SSH connection closes and
its channel with it. -/
inductive LinkEvent where
  | own (e : Event)
  | sshCloses
  deriving DecidableEq, Repr

/-- The channel of the connection is closed. -/
def closeChannel (c : Connection) : Connection :=
  c.setEndpoint .channel { c.endpoint .channel with closed := true }

def linkStep (c : Connection) : LinkEvent → Option Connection
  | .own e => c.step e
  | .sshCloses => some c.closeChannel

variable {c c' : Connection} {d : Loop} {events : List LinkEvent}

/-- Closing the channel moves no byte. -/
theorem flow_closeChannel (d : Loop) (c : Connection) :
    c.closeChannel.sent d = c.sent d ∧ c.closeChannel.incoming d = c.incoming d ∧
      c.closeChannel.received d = c.received d ∧ c.closeChannel.held d = c.held d ∧
      c.closeChannel.delivered d = c.delivered d := by
  refine ⟨?_, ?_, rfl, rfl, ?_⟩
  · by_cases h : d.source = .channel <;> simp [sent, closeChannel, h]
  · by_cases h : d.source = .channel <;> simp [incoming, closeChannel, h]
  · by_cases h : d.target = .channel <;> simp [delivered, closeChannel, h]

/-- What has been forwarded, is held and has arrived is part of what was sent, in order. -/
theorem forwarded_sublist_of_run (hrun : Runs.run linkStep opened events = some c) (d : Loop) :
    (c.delivered d ++ c.held d ++ c.incoming d).Sublist (c.sent d) := by
  refine Runs.preserved_of_run
    (P := fun c => (c.delivered d ++ c.held d ++ c.incoming d).Sublist (c.sent d)) ?_
    (List.Sublist.refl _) hrun
  intro c e c' hc hstep
  cases e with
  | own e =>
    obtain ⟨fresh, new, hsent, hincoming, -, hdelivered⟩ := flow_step d hstep
    have hkept : (c'.delivered d ++ c'.held d).Sublist (c.delivered d ++ c.held d ++ new) := by
      rw [← hdelivered]
      exact List.sublist_append_left _ _
    calc (c'.delivered d ++ c'.held d ++ c'.incoming d).Sublist
          (c.delivered d ++ c.held d ++ new ++ c'.incoming d) := hkept.append_right _
      _ = c.delivered d ++ c.held d ++ c.incoming d ++ fresh := by
          rw [List.append_assoc _ new, hincoming, List.append_assoc _ _ fresh]
      List.Sublist _ (c.sent d ++ fresh) := hc.append_right fresh
      List.Sublist _ (c'.sent d) := by
          rw [hsent]
          exact List.sublist_append_left _ _
  | sshCloses =>
    obtain rfl := Option.some.inj hstep
    obtain ⟨hsent, hincoming, -, hheld, hdelivered⟩ := flow_closeChannel d c
    rwa [hsent, hincoming, hheld, hdelivered]

end Connection

/-- A started tunnel: its accept loop, and the connections that were handed to forwarding threads. -/
structure Tunnel where
  acceptLoop : AcceptLoop := {}
  connections : List Connection := []

namespace Tunnel

inductive Event where
  /-- The accept loop, or a call of `stop` that sets its stop event. -/
  | accept (e : AcceptLoop.Event)
  /-- A forwarding thread of connection `i`, or one of its ends. -/
  | forward (i : ℕ) (e : TargetClickhouse.Event)
  /-- `stop` closes the SSH client, or the SSH connection breaks. -/
  | sshCloses

/-- The part of the accept loop. -/
def Event.ofLoop : Tunnel.Event → Option AcceptLoop.Event
  | .accept e => some e
  | .forward _ _ => none
  | .sshCloses => none

/-- The part of the connections: a connection is started for every channel that opens. -/
def Event.ofConnections : Tunnel.Event → Option (Families.Event Connection.LinkEvent)
  | .accept e => if e = .opens then some .start else none
  | .forward i e => some (.at i (.own e))
  | .sshCloses => some (.all .sshCloses)

/-- A step of the accept loop, of the connections, or of both. -/
def step (t : Tunnel) (e : Tunnel.Event) : Option Tunnel :=
  (Runs.stepOn AcceptLoop.step t.acceptLoop e.ofLoop).bind fun acceptLoop =>
    (Runs.stepOn (Families.step Connection.opened Connection.linkStep) t.connections
      e.ofConnections).map fun connections => ⟨acceptLoop, connections⟩

/-- The events of connection `i`. -/
def own (i : ℕ) (events : List Tunnel.Event) : List Connection.LinkEvent :=
  Families.own i 0 (events.filterMap Event.ofConnections)

variable {t t' : Tunnel} {e : Tunnel.Event} {events : List Tunnel.Event}

theorem step_eq_some (h : t.step e = some t') :
    Runs.stepOn AcceptLoop.step t.acceptLoop e.ofLoop = some t'.acceptLoop ∧
      Runs.stepOn (Families.step Connection.opened Connection.linkStep) t.connections
        e.ofConnections = some t'.connections := by
  obtain ⟨acceptLoop, hloop, h⟩ := Option.bind_eq_some_iff.1 h
  obtain ⟨connections, hconnections, rfl⟩ := Option.map_eq_some_iff.1 h
  exact ⟨hloop, hconnections⟩

/-- The connections of a tunnel are a family of single connections. -/
theorem run_connections (hrun : Runs.run step {} events = some t) :
    Runs.run (Families.step Connection.opened Connection.linkStep) []
      (events.filterMap Event.ofConnections) = some t.connections :=
  Runs.run_filterMap Tunnel.connections Event.ofConnections (fun h => (step_eq_some h).2) hrun

/-- The loop settles a connection as forwarded when its channel opens, and at no other time. -/
theorem count_forwarded_apply (s : AcceptLoop) (e : AcceptLoop.Event) :
    (s.apply e).settled.count .forwarded =
      s.settled.count .forwarded + if e = .opens then 1 else 0 := by
  cases e with
  | openRaises error =>
    cases error <;> simp [AcceptLoop.apply, AcceptLoop.settle, AcceptLoop.handleOSError]
  | _ => simp [AcceptLoop.apply, AcceptLoop.settle, AcceptLoop.handleOSError]

/-- A step starts a connection exactly when it settles one as forwarded. -/
theorem length_connections_step (h : t.step e = some t') :
    t'.connections.length + t.acceptLoop.settled.count .forwarded =
      t.connections.length + t'.acceptLoop.settled.count .forwarded := by
  obtain ⟨hloop, hconnections⟩ := step_eq_some h
  cases e with
  | accept e =>
    obtain ⟨-, heq⟩ := AcceptLoop.step_eq_some.1 hloop
    rw [← heq, count_forwarded_apply]
    by_cases he : e = .opens
    · subst he
      have hnew : t.connections ++ [Connection.opened] = t'.connections :=
        Option.some.inj hconnections
      rw [← hnew, List.length_append, List.length_singleton, if_pos rfl]
      omega
    · have hlength := Families.length_stepOn hconnections (by simp [Event.ofConnections, he])
      rw [hlength, if_neg he, Nat.add_zero]
  | forward i e =>
    have hlength := Families.length_stepOn hconnections (by simp [Event.ofConnections])
    rw [hlength, ← Option.some.inj hloop]
  | sshCloses =>
    have hlength := Families.length_stepOn hconnections (by simp [Event.ofConnections])
    rw [hlength, ← Option.some.inj hloop]

/-- In every interleaving of the accept loop, the forwarding threads and the calls of `stop`, there
is one connection for each channel that was opened; it runs by itself on its own events, and each of
its ends gets only bytes that its other end sent, in their order and none twice. -/
theorem isolated_of_run (hrun : Runs.run step {} events = some t) :
    t.connections.length = t.acceptLoop.settled.count .forwarded ∧
      ∀ (i : ℕ) (c : Connection), t.connections[i]? = some c →
        Runs.run Connection.linkStep Connection.opened (own i events) = some c ∧
          ∀ d, (c.delivered d).Sublist (c.sent d) := by
  constructor
  · refine Runs.preserved_of_run
      (P := fun t : Tunnel => t.connections.length = t.acceptLoop.settled.count .forwarded)
      (fun hlength hstep => ?_) rfl hrun
    have hcounts := length_connections_step hstep
    omega
  · intro i c hc
    have hown : Runs.run Connection.linkStep Connection.opened (own i events) = some c :=
      Families.run_own (run_connections hrun) hc
    refine ⟨hown, fun d => ?_⟩
    have hsublist := Connection.forwarded_sublist_of_run hown d
    rw [List.append_assoc] at hsublist
    exact (List.sublist_append_left _ _).trans hsublist

/-- Two connections at once: a short send on the first one, and the SSH connection breaks. -/
theorem isolated_two :
    let events : List Tunnel.Event :=
      [.accept .test, .accept .acceptYields, .accept .opens,
        .forward 0 (.peerSends .localSocket [1, 2]), .accept .test, .accept .acceptYields,
        .forward 0 (.recv .localToRemote 9), .accept .opens,
        .forward 1 (.peerSends .localSocket [3]), .forward 1 (.recv .localToRemote 9),
        .forward 0 (.send .localToRemote 0), .forward 1 (.send .localToRemote 0), .sshCloses,
        .forward 1 (.recvRaises .remoteToLocal)]
    ∃ t, Runs.run step {} events = some t ∧
      t.connections.length = t.acceptLoop.settled.count .forwarded ∧
      ∀ (i : ℕ) (c : Connection), t.connections[i]? = some c →
        Runs.run Connection.linkStep Connection.opened (own i events) = some c ∧
          ∀ d, (c.delivered d).Sublist (c.sent d) := by
  intro events
  have hruns : (Runs.run step {} events).isSome = true := by decide
  obtain ⟨t, ht⟩ := Option.isSome_iff_exists.1 hruns
  exact ⟨t, ht, isolated_of_run ht⟩

end Tunnel

end TargetClickhouse
