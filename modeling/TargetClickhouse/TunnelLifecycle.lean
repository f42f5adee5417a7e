import TargetClickhouse.Lib.Runs

/-!
# The life of the SSH tunnel

The tunnel that a connector starts when it first needs it, over calls of `_tunneled_host_port` and
`_stop_ssh_tunnel` in any order, where a start may fail at any of its steps.

`sound_iff` says in which runs the connector never loses an open tunnel, and never hands out the
endpoint of a stopped one.
-/

namespace TargetClickhouse

namespace TunnelLifecycle

/-- The calls of `SSHTunnelForwarder.start` that can raise. -/
inductive StartStep where
  | connect
  | socket
  | setsockopt
  | bind
  | listen
  | getsockname
  | startThread
  deriving DecidableEq, Repr

/-- What a forwarder holds. -/
structure Forwarder where
  /-- The SSH connection is open. -/
  sshOpen : Bool := false
  /-- The server socket is open. -/
  socketOpen : Bool := false
  /-- The accept loop was started. -/
  threadStarted : Bool := false
  stopEvent : Bool := false
  deriving DecidableEq, Repr

namespace Forwarder

/-- The forwarder after one call of `start`. -/
def after (f : Forwarder) : StartStep → Forwarder
  | .connect => { f with sshOpen := true }
  | .socket => { f with socketOpen := true }
  | .startThread => { f with threadStarted := true }
  | _ => f

/-- The calls of `start` up to the one that raises, if one does. -/
def start (fails : Option StartStep) : Forwarder :=
  ([.connect, .socket, .setsockopt, .bind, .listen, .getsockname, .startThread].takeWhile
    fun step => some step ≠ fails).foldl after {}

/-- `SSHTunnelForwarder.stop`. -/
def stop (f : Forwarder) : Forwarder :=
  { f with sshOpen := false, socketOpen := false, stopEvent := true }

/-- The local endpoint leads through the tunnel. -/
def isRunning (f : Forwarder) : Bool :=
  f.sshOpen && f.socketOpen && f.threadStarted && !f.stopEvent

/-- The forwarder holds a connection or a socket. -/
def holdsOpen (f : Forwarder) : Bool := f.sshOpen || f.socketOpen

end Forwarder

/-- How an attempt to start a tunnel turns out. -/
inductive Start where
  | succeeds
  /-- The settings are incomplete, or the key cannot be read. -/
  | rejected
  | fails (step : StartStep)
  /-- The tunnel is started and cached, but its signal handlers cannot be registered. -/
  | unregistered
  deriving DecidableEq, Repr

inductive Event where
  /-- `_tunneled_host_port`, with the outcome of the start if there is one. -/
  | hostPort (start : Start)
  /-- `_stop_ssh_tunnel`, called directly, at exit or by a signal handler. -/
  | stop
  deriving DecidableEq, Repr

end TunnelLifecycle

open TunnelLifecycle

/-- A connector with the tunnel that it caches, and the forwarders that it does not reach. -/
structure TunnelLifecycle where
  sshTunnel : Option Forwarder := none
  unreachable : List Forwarder := []
  /-- The forwarders whose endpoints were returned, as they were then. -/
  returned : List Forwarder := []
  deriving DecidableEq, Repr

namespace TunnelLifecycle

variable (s : TunnelLifecycle)

/-- `_tunneled_host_port`, with `ssh_tunnel` enabled. -/
def tunneledHostPort (start : Start) : TunnelLifecycle :=
  match s.sshTunnel with
  | some f => { s with returned := s.returned ++ [f] }
  | none =>
      match start with
      | .succeeds =>
          let f := Forwarder.start none
          { s with sshTunnel := some f, returned := s.returned ++ [f] }
      | .rejected => s
      -- the exception leaves the new forwarder behind
      | .fails step => { s with unreachable := s.unreachable ++ [Forwarder.start (some step)] }
      | .unregistered => { s with sshTunnel := some (Forwarder.start none) }

/-- `_stop_ssh_tunnel`, which keeps the tunnel cached. -/
def stopSshTunnel : TunnelLifecycle := { s with sshTunnel := s.sshTunnel.map Forwarder.stop }

def apply : TunnelLifecycle.Event → TunnelLifecycle
  | .hostPort start => s.tunneledHostPort start
  | .stop => s.stopSshTunnel

def step (e : TunnelLifecycle.Event) : Option TunnelLifecycle := some (s.apply e)

/-- The forwarders that there are. -/
def forwarders : List Forwarder := s.sshTunnel.toList ++ s.unreachable

/-! ## Soundness -/

/-- What the connector should keep. -/
structure Sound : Prop where
  atMostOne : s.forwarders.countP Forwarder.sshOpen ≤ 1
  /-- Stopping the cached tunnel closes all that is open. -/
  owned : ∀ f ∈ s.unreachable, f.holdsOpen = false
  /-- The cached tunnel runs until it is stopped. -/
  cached : ∀ f, s.sshTunnel = some f → f.isRunning = !f.stopEvent
  running : ∀ f ∈ s.returned, f.isRunning = true

/-- A start does not fail after the SSH connection was opened, and a tunnel is not asked for after
it was stopped. -/
def KeepsTunnel : TunnelLifecycle.Event → Prop
  | .hostPort start =>
      match s.sshTunnel with
      | some f => f.stopEvent = false
      | none => ∀ step, start = .fails step → step = .connect
  | .stop => True

variable {s} {s' : TunnelLifecycle} {e : TunnelLifecycle.Event}

theorem holdsOpen_start (step : StartStep) :
    (Forwarder.start (some step)).holdsOpen = false ↔ step = .connect := by
  cases step <;> decide

/-- A forwarder that was started. -/
theorem isRunning_start : (Forwarder.start none).isRunning = true := by decide

/-- At most the cached tunnel is open, if nothing is that the connector does not reach. -/
theorem countP_sshOpen_le_one (h : ∀ f ∈ s.unreachable, f.holdsOpen = false) :
    s.forwarders.countP Forwarder.sshOpen ≤ 1 := by
  have hunreachable : s.unreachable.countP Forwarder.sshOpen = 0 := by
    rw [List.countP_eq_zero]
    intro f hf hopen
    have hclosed := h f hf
    rw [Forwarder.holdsOpen, hopen] at hclosed
    cases hclosed
  have hcached : s.sshTunnel.toList.countP Forwarder.sshOpen ≤ s.sshTunnel.toList.length :=
    List.countP_le_length
  have hlength : s.sshTunnel.toList.length ≤ 1 := by cases s.sshTunnel <;> simp
  rw [forwarders, List.countP_append, hunreachable]
  omega

theorem sound_of_owned (howned : ∀ f ∈ s.unreachable, f.holdsOpen = false)
    (hcached : ∀ f, s.sshTunnel = some f → f.isRunning = !f.stopEvent)
    (hrunning : ∀ f ∈ s.returned, f.isRunning = true) : Sound s :=
  ⟨countP_sshOpen_le_one howned, howned, hcached, hrunning⟩

theorem sound_init : Sound {} := sound_of_owned nofun nofun nofun

/-- Nothing is open once a sound connector has stopped its tunnel. -/
theorem Sound.stopSshTunnel (h : Sound s) :
    ∀ f ∈ s.stopSshTunnel.forwarders, f.holdsOpen = false := by
  intro f hf
  rcases List.mem_append.1 hf with hcached | hunreachable
  · obtain ⟨f', -, rfl⟩ := Option.map_eq_some_iff.1 (Option.mem_toList.1 hcached)
    rfl
  · exact h.owned f hunreachable

/-- The endpoint of a cached tunnel may be returned until the tunnel is stopped. -/
theorem sound_tunneledHostPort_some_iff (h : Sound s) {f : Forwarder} (hf : s.sshTunnel = some f) :
    Sound { s with returned := s.returned ++ [f] } ↔ f.stopEvent = false := by
  have hrunning : f.isRunning = true ↔ f.stopEvent = false := by
    rw [h.cached f hf, Bool.not_eq_true']
  rw [← hrunning]
  constructor
  · intro hs
    exact hs.running f (List.mem_append_right _ List.mem_cons_self)
  · intro hf'
    refine sound_of_owned h.owned h.cached fun g hg => ?_
    rcases List.mem_append.1 hg with hg | hg
    · exact h.running g hg
    · exact List.mem_singleton.1 hg ▸ hf'

/-- A start that fails must not have opened anything. -/
theorem sound_failed_iff (h : Sound s) (step : StartStep) :
    Sound { s with unreachable := s.unreachable ++ [Forwarder.start (some step)] } ↔
      step = .connect := by
  rw [← holdsOpen_start]
  constructor
  · intro hs
    exact hs.owned _ (List.mem_append_right _ List.mem_cons_self)
  · intro hstep
    refine sound_of_owned (fun g hg => ?_) h.cached h.running
    rcases List.mem_append.1 hg with hg | hg
    · exact h.owned g hg
    · exact List.mem_singleton.1 hg ▸ hstep

theorem sound_step (h : Sound s) (hs : s.step e = some s') : Sound s' ↔ KeepsTunnel s e := by
  obtain rfl := Option.some.inj hs
  cases e with
  | hostPort start =>
    cases hf : s.sshTunnel with
    | some f =>
      simp only [apply, tunneledHostPort, KeepsTunnel, hf]
      have hiff := sound_tunneledHostPort_some_iff h hf
      rwa [hf] at hiff
    | none =>
      simp only [apply, tunneledHostPort, KeepsTunnel, hf]
      cases start with
      | succeeds =>
        refine iff_of_true (sound_of_owned h.owned ?_ fun g hg => ?_) nofun
        · rintro f ⟨⟩
          decide
        · rcases List.mem_append.1 hg with hg | hg
          · exact h.running g hg
          · exact List.mem_singleton.1 hg ▸ isRunning_start
      | rejected => exact iff_of_true h nofun
      | fails step =>
        have hiff := sound_failed_iff h step
        rw [hf] at hiff
        refine hiff.trans ⟨?_, fun hconnect => hconnect step rfl⟩
        rintro hconnect _ ⟨⟩
        exact hconnect
      | unregistered =>
        refine iff_of_true (sound_of_owned h.owned ?_ h.running) nofun
        rintro f ⟨⟩
        decide
  | stop =>
    refine iff_of_true (sound_of_owned h.owned (fun f hf => ?_) h.running) trivial
    obtain ⟨f', -, rfl⟩ := Option.map_eq_some_iff.1 hf
    simp [Forwarder.isRunning, Forwarder.stop]

/-- The connector keeps its tunnel in exactly the runs in which no start fails halfway and no stopped
tunnel is asked for. -/
theorem sound_iff (events : List TunnelLifecycle.Event) :
    Runs.Throughout step Sound {} events ↔ Runs.AllSteps step KeepsTunnel {} events := by
  obtain ⟨s, hrun⟩ := Runs.exists_run (fun s e => ⟨s.apply e, rfl⟩ : ∀ s e, ∃ s', step s e = some s')
    {} events
  exact Runs.throughout_iff_allSteps sound_step sound_init hrun

/-- A stopped tunnel is handed out, and a start that fails to bind leaves a connection open beside
that of the next one. -/
theorem not_sound_stopped_failed :
    ¬ Runs.Throughout step Sound {} [.hostPort .succeeds, .stop, .hostPort .succeeds] ∧
      ¬ Runs.Throughout step Sound {} [.hostPort (.fails .bind), .hostPort .succeeds] := by
  constructor
  · intro h
    have hstopped : Sound (((apply {} (.hostPort .succeeds)).apply .stop).apply
        (.hostPort .succeeds)) := ((h.2 _ rfl).2 _ rfl).2 _ rfl
    exact absurd (hstopped.running _ (List.mem_append_right _ List.mem_cons_self)) (by decide)
  · intro h
    have hfailed : Sound ((apply {} (.hostPort (.fails .bind))).apply (.hostPort .succeeds)) :=
      (h.2 _ rfl).2 _ rfl
    exact absurd hfailed.atMostOne (by decide)

end TunnelLifecycle

end TargetClickhouse
