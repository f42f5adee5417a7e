import TargetClickhouse.ConnectionUrl
import TargetClickhouse.Lib.Effects
import TargetClickhouse.Lib.Runs

/-!
# The connections of a sync

The engines of the connector and the clients of its sinks connect through one tunnel, which is
started for the first of them.  `agree_of_run` says that they all connect in the same way, in
whatever order they come, and `tidy_iff` in which runs no client stays open that its sink has
forgotten.
-/

namespace TargetClickhouse

open Effects Effects.Proc

/-- The settings under `ssh_tunnel`. -/
structure SshTunnelSettings where
  enable : Setting Bool := none
  host : Setting String := none
  port : Setting ℤ := none
  username : Setting String := none
  privateKey : Setting String := none
  privateKeyPassword : Setting String := none

/-- The settings with the defaults of `config_jsonschema`. -/
def SshTunnelSettings.withDefaults (t : SshTunnelSettings) : SshTunnelSettings :=
  { t with enable := t.enable.orDefault false, port := t.port.orDefault 22 }

/-- The settings for another database. -/
def ConnectionSettings.toDatabase (c : ConnectionSettings) (database : Option String) :
    ConnectionSettings :=
  { c with database := some database }

inductive KeyClass where
  | rsaKey
  | ecdsaKey
  | ed25519Key
  deriving DecidableEq, Repr

/-- The exceptions of `from_private_key`. -/
inductive KeyFault where
  | sshException
  | other (id : ℕ)
  deriving DecidableEq, Repr

section GuessKeyType

variable {κ : Type} (fromPrivateKey : KeyClass → String → Except KeyFault κ) (keyData : String)

/-- The classes that are left to try. -/
def guessKeyTypeAmong : List KeyClass → Except Exn κ
  | [] => .error <| .valueError <|
      "Could not determine the key type. Supported key types are RSA, ECDSA, " ++
      "and Ed25519. DSS keys are not supported as they were removed in " ++
      "paramiko 4.0 due to being cryptographically weak."
  | keyClass :: rest =>
      match fromPrivateKey keyClass keyData with
      | .ok key => .ok key
      | .error .sshException => guessKeyTypeAmong rest
      | .error (.other id) => .error (.other id)

/-- `guess_key_type`. -/
def guessKeyType : Except Exn κ :=
  guessKeyTypeAmong fromPrivateKey keyData [.rsaKey, .ecdsaKey, .ed25519Key]

end GuessKeyType

/-- The arguments of `SSHTunnelForwarder`. -/
structure ForwarderArguments (κ : Type) where
  sshHost : Option String
  sshPort : Option ℤ
  sshUsername : Option String
  sshPkey : κ
  sshPrivateKeyPassword : Option String
  remoteBindHost : String
  remoteBindPort : ℤ

/-- The settings of a sync, and paramiko's reading of private keys. -/
structure SyncSettings (κ : Type) where
  connection : ConnectionSettings
  sshTunnel : SshTunnelSettings
  fromPrivateKey : KeyClass → String → Except KeyFault κ

/-- What happens when a tunnel is started: the port it is bound to, and the registration of its
handlers. -/
structure StartOutcome where
  bound : Except Exn ℤ
  registered : Except Exn Unit

/-- A connector and its sinks, with what they have opened. -/
structure Session (ι κ : Type) where
  /-- `_ssh_tunnel`, with its local port. -/
  sshTunnel : Option (ForwarderArguments κ × ℤ) := none
  /-- The URLs of the engines. -/
  urls : List Url := []
  /-- The clients that were ever opened. -/
  made : List ClientArguments := []
  /-- `_ch_connect_client` of each sink. -/
  chConnectClient : ι → Option ClientArguments := fun _ => none
  /-- The clients that are open, with their sinks. -/
  opened : List (ι × ClientArguments) := []

/-- An access to the server, or the end of a stream. -/
inductive Access (ι : Type) where
  /-- `get_sqlalchemy_url`, for the bootstrap engine or the engine itself. -/
  | engine (bootstrap : Bool) (start : StartOutcome)
  /-- `_clickhouse_connect_client`, with the outcome of `get_client`. -/
  | client (sink : ι) (start : StartOutcome) (opens : Except Exn Unit)
  /-- `clean_up`, with the outcome of `close`. -/
  | cleanUp (sink : ι) (closes : Except Exn Unit)

namespace SyncSettings

variable {ι κ : Type} (c : SyncSettings κ)

/-- `(config.get("ssh_tunnel") or {}).get("enable")`. -/
def tunnelEnabled : Bool := c.sshTunnel.withDefaults.enable = some (some true)

/-- The settings of an engine: the bootstrap engine connects to the database `default`. -/
def engineSettings (bootstrap : Bool) : ConnectionSettings :=
  let config := c.connection.withDefaults
  if bootstrap then config.toDatabase (some "default") else config

/-- The forwarder that `start_tunnel_if_enabled` makes for a host and a port. -/
def sshTunnelForwarder (host : String) (port : ℤ) : Except Exn (ForwarderArguments κ) := do
  let sshConfig := c.sshTunnel.withDefaults
  let sshHost ← sshConfig.host.item "host"
  let sshPort ← sshConfig.port.item "port"
  let sshUsername ← sshConfig.username.item "username"
  let keyData ← sshConfig.privateKey.item "private_key"
  let sshPkey ← guessKeyType c.fromPrivateKey (keyData.getD "")
  return ⟨sshHost, sshPort, sshUsername, sshPkey, sshConfig.privateKeyPassword.join, host, port⟩

/-- `start_tunnel_if_enabled`, up to the start of the forwarder. -/
def startTunnelIfEnabled : Except Exn (Option (ForwarderArguments κ)) :=
  let config := c.connection.withDefaults
  if c.tunnelEnabled then
    match config.host.join, config.port.join with
    | some host, some port => (c.sshTunnelForwarder host port).map some
    | _, _ => .error (.valueError "Database host and port must be specified when using SSH tunnel")
  else .ok none

end SyncSettings

namespace Session

variable {ι κ : Type} (s : Session ι κ) (c : SyncSettings κ)

/-- The local endpoint of the cached tunnel. -/
def endpoint : Option (String × ℤ) := s.sshTunnel.map fun tunnel => ("127.0.0.1", tunnel.2)

/-- `_tunneled_host_port`, up to the host and port of the settings. -/
def tunnelEndpoint (start : StartOutcome) : Proc (Session ι κ) Exn (Option (String × ℤ)) := do
  match ← observe fun s => .ok s.sshTunnel with
  | some tunnel => return some ("127.0.0.1", tunnel.2)
  | none =>
      match ← lift c.startTunnelIfEnabled with
      | none => return none
      | some forwarder =>
          let port ← lift start.bound
          modify fun s => { s with sshTunnel := some (forwarder, port) }
          lift start.registered
          return some ("127.0.0.1", port)

def addUrl (url : Url) : Session ι κ := { s with urls := s.urls ++ [url] }

/-- `get_sqlalchemy_url`, which does not look at the other settings when `sqlalchemy_url` is set. -/
def getEngine (bootstrap : Bool) (start : StartOutcome) : Proc (Session ι κ) Exn Unit :=
  if (c.engineSettings bootstrap).sqlalchemyUrl.text.isSome then pure ()
  else do
    let endpoint ← tunnelEndpoint c start
    let url ← lift ((c.engineSettings bootstrap).createUrl endpoint)
    modify fun s => s.addUrl url

section

variable [DecidableEq ι]

def addClient (sink : ι) (arguments : ClientArguments) : Session ι κ :=
  { s with
    made := s.made ++ [arguments]
    chConnectClient := Function.update s.chConnectClient sink (some arguments)
    opened := s.opened ++ [(sink, arguments)] }

/-- The sink forgets its client, closed or not. -/
def dropClient (sink : ι) (arguments : ClientArguments) (closed : Bool) : Session ι κ :=
  { s with
    chConnectClient := Function.update s.chConnectClient sink none
    opened := if closed then s.opened.erase (sink, arguments) else s.opened }

/-- `_clickhouse_connect_client`. -/
def getClient (sink : ι) (start : StartOutcome) (opens : Except Exn Unit) :
    Proc (Session ι κ) Exn Unit := do
  match ← observe fun s => .ok (s.chConnectClient sink) with
  | some _ => pure ()
  | none =>
      let endpoint ← tunnelEndpoint c start
      let arguments ← lift (c.connection.withDefaults.clientArguments endpoint)
      lift opens
      modify fun s => s.addClient sink arguments

/-- `clean_up`, which suppresses the exception of `close`. -/
def cleanUp (sink : ι) (closes : Except Exn Unit) : Proc (Session ι κ) Exn Unit := do
  match ← observe fun s => .ok (s.chConnectClient sink) with
  | none => pure ()
  | some arguments => modify fun s => s.dropClient sink arguments closes.toBool

def perform : Access ι → Proc (Session ι κ) Exn Unit
  | .engine bootstrap start => getEngine c bootstrap start
  | .client sink start opens => getClient c sink start opens
  | .cleanUp sink closes => cleanUp sink closes

/-- The session after an access, whether it raises or not. -/
def step (a : Access ι) : Option (Session ι κ) := some (perform c a s).2

end

/-! ## Agreement -/

/-- Where a connection ends: behind the tunnel, if it is made to the local endpoint. -/
def reached (host : Option String) (port : Option ℤ) : Option String × Option ℤ :=
  match s.sshTunnel with
  | none => (host, port)
  | some (forwarder, localPort) =>
      if host = some "127.0.0.1" ∧ port = some localPort then
        (some forwarder.remoteBindHost, some forwarder.remoteBindPort)
      else (host, port)

/-- The engines and the clients connect in the same way, up to the database, and reach the host and
the port of the settings. -/
structure Agree : Prop where
  same : ∀ url ∈ s.urls, ∀ arguments ∈ s.made,
    { url.httpConnection with database := arguments.database } = arguments.connection
  urls : ∀ url ∈ s.urls, s.reached url.host url.port =
    (c.connection.host.get "localhost", c.connection.port.get 8123)
  made : ∀ arguments ∈ s.made, s.reached arguments.host arguments.port =
    (c.connection.host.get "localhost", c.connection.port.get 8123)

/-- All connections were made through the tunnel that is cached now. -/
structure Consistent : Prop where
  urls : ∀ url ∈ s.urls, ∃ database : Option String,
    (c.connection.toDatabase database).withDefaults.createUrl s.endpoint = .ok url
  made : ∀ arguments ∈ s.made,
    c.connection.withDefaults.clientArguments s.endpoint = .ok arguments
  first : c.tunnelEnabled = true → s.sshTunnel = none → s.urls = [] ∧ s.made = []
  remote : ∀ forwarder port, s.sshTunnel = some (forwarder, port) →
    (some forwarder.remoteBindHost, some forwarder.remoteBindPort) =
      (c.connection.host.get "localhost", c.connection.port.get 8123)

variable {s c} {t : Session ι κ} {start : StartOutcome}

theorem sshTunnelForwarder_eq_ok {host : String} {port : ℤ} {forwarder : ForwarderArguments κ}
    (h : c.sshTunnelForwarder host port = .ok forwarder) :
    forwarder.remoteBindHost = host ∧ forwarder.remoteBindPort = port := by
  obtain ⟨sshHost, -, h⟩ := Dict.bind_eq_ok_iff.1 h
  obtain ⟨sshPort, -, h⟩ := Dict.bind_eq_ok_iff.1 h
  obtain ⟨sshUsername, -, h⟩ := Dict.bind_eq_ok_iff.1 h
  obtain ⟨keyData, -, h⟩ := Dict.bind_eq_ok_iff.1 h
  obtain ⟨sshPkey, -, h⟩ := Dict.bind_eq_ok_iff.1 h
  obtain rfl := Except.ok.inj h
  exact ⟨rfl, rfl⟩

/-- When the tunnel is enabled, there is a forwarder to the host and the port of the settings. -/
theorem startTunnelIfEnabled_eq_ok {forwarder : Option (ForwarderArguments κ)}
    (h : c.startTunnelIfEnabled = .ok forwarder) :
    (c.tunnelEnabled = false ∧ forwarder = none) ∨ c.tunnelEnabled = true ∧ ∃ f,
      forwarder = some f ∧ (some f.remoteBindHost, some f.remoteBindPort) =
        (c.connection.host.get "localhost", c.connection.port.get 8123) := by
  unfold SyncSettings.startTunnelIfEnabled at h
  dsimp only at h
  split_ifs at h with henabled
  · split at h
    · rename_i host port hhost hport
      obtain ⟨f, hf, rfl⟩ := Dict.map_eq_ok_iff.1 h
      obtain ⟨rfl, rfl⟩ := sshTunnelForwarder_eq_ok hf
      exact Or.inr ⟨henabled, f, rfl, Prod.ext hhost.symm hport.symm⟩
    · cases h
  · exact Or.inl ⟨by simpa using henabled, (Except.ok.inj h).symm⟩

/-- Nothing changes, or a tunnel is cached that was not there. -/
theorem tunnelEndpoint_cases (c : SyncSettings κ) (start : StartOutcome) (s : Session ι κ) :
    (tunnelEndpoint c start s).2 = s ∨ s.sshTunnel = none ∧ ∃ forwarder port,
      c.startTunnelIfEnabled = .ok (some forwarder) ∧
      (tunnelEndpoint c start s).2 = { s with sshTunnel := some (forwarder, port) } := by
  unfold tunnelEndpoint
  rw [observe_ok_bind]
  rcases s.sshTunnel with _ | tunnel
  · rcases c.startTunnelIfEnabled with e | _ | forwarder
    · exact Or.inl rfl
    · exact Or.inl rfl
    · rcases start.bound with e | port
      · exact Or.inl rfl
      · refine Or.inr ⟨rfl, forwarder, port, rfl, ?_⟩
        rcases start.registered with e | ⟨⟩ <;> rfl
  · exact Or.inl rfl

/-- The endpoint that is returned is that of the cached tunnel. -/
theorem tunnelEndpoint_eq_ok {endpoint : Option (String × ℤ)}
    (h : tunnelEndpoint c start s = (.ok endpoint, t)) :
    endpoint = t.endpoint ∧ (c.tunnelEnabled = true → t.sshTunnel ≠ none) := by
  unfold tunnelEndpoint at h
  rw [observe_ok_bind] at h
  rcases hs : s.sshTunnel with _ | tunnel
  · rw [hs] at h
    obtain ⟨started, hstarted, h⟩ := lift_bind_eq_ok.1 h
    rcases startTunnelIfEnabled_eq_ok hstarted with ⟨hdisabled, rfl⟩ | ⟨-, forwarder, rfl, -⟩
    · obtain ⟨rfl, rfl⟩ := pure_eq_ok.1 h
      refine ⟨?_, fun henabled => by simp [hdisabled] at henabled⟩
      rw [Session.endpoint, hs]
      rfl
    · obtain ⟨port, -, h⟩ := lift_bind_eq_ok.1 h
      obtain ⟨⟨⟩, s₂, hmodify, h⟩ := bind_eq_ok.1 h
      obtain ⟨⟨⟩, -, h⟩ := lift_bind_eq_ok.1 h
      obtain ⟨rfl, rfl⟩ := pure_eq_ok.1 h
      obtain ⟨-, rfl⟩ := Prod.mk.inj hmodify
      exact ⟨rfl, fun _ => nofun⟩
  · rw [hs] at h
    obtain ⟨rfl, rfl⟩ := pure_eq_ok.1 h
    refine ⟨?_, fun _ => by simp [hs]⟩
    rw [Session.endpoint, hs]
    rfl

theorem Consistent.tunnelEndpoint (h : Consistent s c) (start : StartOutcome) :
    Consistent (tunnelEndpoint c start s).2 c := by
  rcases tunnelEndpoint_cases c start s with hsame | ⟨hnone, forwarder, port, hstart, hsome⟩
  · rwa [hsame]
  · rcases startTunnelIfEnabled_eq_ok hstart with ⟨-, hforwarder⟩ | ⟨henabled, f, hf, hremote⟩
    · cases hforwarder
    · -- nothing was connected before the tunnel
      obtain rfl := Option.some.inj hf
      obtain ⟨hurls, hmade⟩ := h.first henabled hnone
      rw [hsome]
      refine ⟨by simp [hurls], by simp [hmade], fun _ => nofun, ?_⟩
      rintro forwarder' port' ⟨⟩
      exact hremote

/-- What follows runs with the endpoint of the cached tunnel. -/
theorem Consistent.bind (h : Consistent s c)
    {f : Option (String × ℤ) → Proc (Session ι κ) Exn Unit}
    (hf : ∀ t, Consistent t c → (c.tunnelEnabled = true → t.sshTunnel ≠ none) →
      Consistent (f t.endpoint t).2 c) :
    Consistent ((Session.tunnelEndpoint c start >>= f) s).2 c := by
  have hendpoint := h.tunnelEndpoint start
  refine bind_induction (P := fun t => Consistent t c) hendpoint fun endpoint t hrun => ?_
  obtain ⟨rfl, hready⟩ := tunnelEndpoint_eq_ok hrun
  rw [hrun] at hendpoint
  exact hf t hendpoint hready

theorem exists_engineSettings (c : SyncSettings κ) (bootstrap : Bool) :
    ∃ database : Option String, c.engineSettings bootstrap =
      (c.connection.toDatabase database).withDefaults := by
  cases bootstrap with
  | false => exact ⟨c.connection.database.get "default", rfl⟩
  | true => exact ⟨some "default", rfl⟩

theorem Consistent.getEngine (h : Consistent s c) (bootstrap : Bool) (start : StartOutcome) :
    Consistent (getEngine c bootstrap start s).2 c := by
  unfold Session.getEngine
  split
  · exact h
  · refine h.bind fun t ht hready => ?_
    rcases hurl : (c.engineSettings bootstrap).createUrl t.endpoint with e | url
    · exact ht
    · refine ⟨fun u hu => ?_, ht.made, fun henabled hnone => absurd hnone (hready henabled),
        ht.remote⟩
      rcases List.mem_append.1 hu with hu | hu
      · exact ht.urls u hu
      · obtain rfl := List.mem_singleton.1 hu
        obtain ⟨database, hdatabase⟩ := exists_engineSettings c bootstrap
        exact ⟨database, hdatabase ▸ hurl⟩

theorem Consistent.getClient [DecidableEq ι] (h : Consistent s c) (sink : ι) (start : StartOutcome)
    (opens : Except Exn Unit) : Consistent (getClient c sink start opens s).2 c := by
  unfold Session.getClient
  rw [observe_ok_bind]
  rcases s.chConnectClient sink with _ | arguments
  · refine h.bind fun t ht hready => ?_
    rcases harguments : c.connection.withDefaults.clientArguments t.endpoint with e | arguments
    · exact ht
    · rcases opens with e | ⟨⟩
      · exact ht
      · refine ⟨ht.urls, fun a ha => ?_, fun henabled hnone => absurd hnone (hready henabled),
          ht.remote⟩
        rcases List.mem_append.1 ha with ha | ha
        · exact ht.made a ha
        · exact List.mem_singleton.1 ha ▸ harguments
  · exact h

theorem Consistent.perform [DecidableEq ι] (h : Consistent s c) (a : Access ι) :
    Consistent (perform c a s).2 c := by
  cases a with
  | engine bootstrap start => exact h.getEngine bootstrap start
  | client sink start opens => exact h.getClient sink start opens
  | cleanUp sink closes =>
    show Consistent (Session.cleanUp sink closes s).2 c
    unfold Session.cleanUp
    rw [observe_ok_bind]
    rcases s.chConnectClient sink with _ | arguments
    · exact h
    · exact ⟨h.urls, h.made, h.first, h.remote⟩

theorem Consistent.reached (h : Consistent s c) {host : Option String} {port : Option ℤ}
    (hendpoint : c.connection.withDefaults.tunneledHostPort s.endpoint = .ok (host, port)) :
    s.reached host port = (c.connection.host.get "localhost", c.connection.port.get 8123) := by
  unfold Session.endpoint at hendpoint
  unfold Session.reached
  rcases hs : s.sshTunnel with _ | ⟨forwarder, localPort⟩
  · rw [hs] at hendpoint
    exact (Except.ok.inj hendpoint).symm
  · rw [hs] at hendpoint
    obtain ⟨rfl, rfl⟩ := Prod.mk.inj (Except.ok.inj hendpoint)
    exact (if_pos ⟨rfl, rfl⟩).trans (h.remote forwarder localPort hs)

/-- The arguments of every client. -/
theorem clientArguments_eq {arguments : ClientArguments} {config : ConnectionSettings}
    {endpoint : Option (String × ℤ)} {host : Option String} {port : Option ℤ}
    (hendpoint : config.withDefaults.tunneledHostPort endpoint = .ok (host, port))
    (h : config.withDefaults.clientArguments endpoint = .ok arguments) :
    arguments = ⟨host, port, config.username.get "default", config.password.text.getD "",
      config.database.get "default", config.secure.get false, config.verify.get true⟩ := by
  rw [ConnectionSettings.clientArguments, hendpoint] at h
  exact (Except.ok.inj h).symm

/-- Consistent connections agree. -/
theorem Consistent.agree (h : Consistent s c)
    (hdriver : c.connection.driver.get .http = some .http) : Agree s c := by
  obtain ⟨⟨host, port⟩, hendpoint⟩ := c.connection.exists_tunneledHostPort s.endpoint
  have hreached := h.reached hendpoint
  have hurl : ∀ url ∈ s.urls, url.host = host ∧ url.port = port ∧ ∃ password,
      c.connection.password = some password ∧ url.username = c.connection.username.get "default" ∧
      url.password = password ∧ url.httpConnection.tls = c.connection.certificateCheck := by
    intro url hmem
    obtain ⟨database, hcreate⟩ := h.urls url hmem
    have hendpoint' : (c.connection.toDatabase database).withDefaults.tunneledHostPort s.endpoint =
        .ok (host, port) := hendpoint
    obtain ⟨query, hquery, htls⟩ := ConnectionSettings.exists_urlQuery
      (c := c.connection.toDatabase database) hdriver
    have hpassword' : (c.connection.toDatabase database).password = c.connection.password := rfl
    rw [ConnectionSettings.createUrl_withDefaults hendpoint' hquery, hpassword'] at hcreate
    rcases hpassword : c.connection.password with _ | password
    · rw [hpassword] at hcreate
      cases hcreate
    · rw [hpassword] at hcreate
      obtain rfl := Except.ok.inj hcreate
      exact ⟨rfl, rfl, password, rfl, rfl, rfl, htls _ rfl⟩
  refine ⟨fun url hu arguments ha => ?_, fun url hu => ?_, fun arguments ha => ?_⟩
  · obtain ⟨hhost, hport, password, hpassword, husername, hurlPassword, htls⟩ := hurl url hu
    obtain rfl := clientArguments_eq hendpoint (h.made arguments ha)
    rw [HttpConnection.mk.injEq]
    refine ⟨hhost, hport, husername, ?_, rfl, htls⟩
    show url.password.getD "" = c.connection.password.text.getD ""
    rw [hurlPassword, hpassword]
    exact Setting.getD_text password
  · obtain ⟨hhost, hport, -⟩ := hurl url hu
    rwa [hhost, hport]
  · obtain rfl := clientArguments_eq hendpoint (h.made arguments ha)
    exact hreached

/-- Every open client is that of its sink, and is open once. -/
structure Tidy (s : Session ι κ) : Prop where
  nodup : s.opened.Nodup
  mem_iff : ∀ {sink arguments}, (sink, arguments) ∈ s.opened ↔
    s.chConnectClient sink = some arguments

/-- The tunnel has nothing to do with the clients. -/
theorem clients_tunnelEndpoint (c : SyncSettings κ) (start : StartOutcome) (s : Session ι κ) :
    (tunnelEndpoint c start s).2.chConnectClient = s.chConnectClient ∧
      (tunnelEndpoint c start s).2.opened = s.opened := by
  rcases tunnelEndpoint_cases c start s with hsame | ⟨-, forwarder, port, -, hsome⟩
  · rw [hsame]
    exact ⟨rfl, rfl⟩
  · rw [hsome]
    exact ⟨rfl, rfl⟩

theorem Tidy.of_clients (h : Tidy s) (hcached : t.chConnectClient = s.chConnectClient)
    (hopened : t.opened = s.opened) : Tidy t where
  nodup := hopened ▸ h.nodup
  mem_iff := by rw [hcached, hopened]; exact h.mem_iff

theorem Tidy.getEngine (h : Tidy s) (bootstrap : Bool) (start : StartOutcome) :
    Tidy (getEngine c bootstrap start s).2 := by
  unfold Session.getEngine
  split
  · exact h
  · obtain ⟨hcached, hopened⟩ := clients_tunnelEndpoint c start s
    have htidy := h.of_clients hcached hopened
    refine bind_induction htidy fun endpoint t hrun => ?_
    rw [hrun] at htidy
    rcases (c.engineSettings bootstrap).createUrl endpoint with e | url
    · exact htidy
    · exact htidy.of_clients rfl rfl

section

variable [DecidableEq ι] {a : Access ι}

/-- No client of a sink fails to close. -/
def Closes (s : Session ι κ) : Access ι → Prop
  | .cleanUp sink closes => s.chConnectClient sink = none ∨ closes.toBool = true
  | _ => True

theorem Tidy.addClient (h : Tidy s) {sink : ι} (hnone : s.chConnectClient sink = none)
    (arguments : ClientArguments) : Tidy (s.addClient sink arguments) := by
  have hnew : ∀ arguments', (sink, arguments') ∉ s.opened := by
    intro arguments' hmem
    have hcached := h.mem_iff.1 hmem
    rw [hnone] at hcached
    cases hcached
  refine ⟨List.nodup_append.2 ⟨h.nodup, List.nodup_singleton _, ?_⟩, ?_⟩
  · rintro x hx y hy rfl
    exact hnew arguments (List.mem_singleton.1 hy ▸ hx)
  · intro sink' arguments'
    show (sink', arguments') ∈ s.opened ++ [(sink, arguments)] ↔
      Function.update s.chConnectClient sink (some arguments) sink' = some arguments'
    rw [List.mem_append, List.mem_singleton, Prod.mk.injEq]
    by_cases hsink : sink' = sink
    · subst hsink
      rw [Function.update_self, Option.some.injEq]
      simp [hnew, eq_comm]
    · rw [Function.update_of_ne hsink, ← h.mem_iff]
      simp [hsink]

/-- A sink may forget its client once it is closed. -/
theorem tidy_dropClient_iff (h : Tidy s) {sink : ι} {arguments : ClientArguments}
    (hsome : s.chConnectClient sink = some arguments) (closed : Bool) :
    Tidy (s.dropClient sink arguments closed) ↔ closed = true := by
  have hmem : (sink, arguments) ∈ s.opened := h.mem_iff.2 hsome
  have hforgotten : ∀ arguments', (s.dropClient sink arguments closed).chConnectClient sink ≠
      some arguments' := by
    intro arguments'
    show Function.update s.chConnectClient sink none sink ≠ _
    rw [Function.update_self]
    exact nofun
  cases closed with
  | false =>
    refine iff_of_false (fun htidy => ?_) nofun
    exact hforgotten arguments (htidy.mem_iff.1 hmem)
  | true =>
    refine iff_of_true ⟨h.nodup.erase _, fun {sink' arguments'} => ?_⟩ rfl
    show (sink', arguments') ∈ s.opened.erase (sink, arguments) ↔ _
    rw [h.nodup.mem_erase_iff, Ne, Prod.mk.injEq]
    by_cases hsink : sink' = sink
    · subst hsink
      refine iff_of_false ?_ (hforgotten arguments')
      rintro ⟨hne, hmem'⟩
      have hcached := h.mem_iff.1 hmem'
      rw [hsome] at hcached
      exact hne ⟨rfl, (Option.some.inj hcached).symm⟩
    · show _ ↔ Function.update s.chConnectClient sink none sink' = some arguments'
      rw [Function.update_of_ne hsink, ← h.mem_iff]
      simp [hsink]

theorem Tidy.getClient (h : Tidy s) (sink : ι) (start : StartOutcome) (opens : Except Exn Unit) :
    Tidy (getClient c sink start opens s).2 := by
  unfold Session.getClient
  rw [observe_ok_bind]
  rcases hnone : s.chConnectClient sink with _ | arguments
  · obtain ⟨hcached, hopened⟩ := clients_tunnelEndpoint c start s
    have htidy := h.of_clients hcached hopened
    refine bind_induction htidy fun endpoint t hrun => ?_
    rw [hrun] at htidy hcached
    rcases c.connection.withDefaults.clientArguments endpoint with e | arguments
    · exact htidy
    · rcases opens with e | ⟨⟩
      · exact htidy
      · exact htidy.addClient ((congrFun hcached sink).trans hnone) arguments
  · exact h

theorem tidy_cleanUp_iff (h : Tidy s) (sink : ι) (closes : Except Exn Unit) :
    Tidy (cleanUp sink closes s).2 ↔
      s.chConnectClient sink = none ∨ closes.toBool = true := by
  unfold cleanUp
  rw [observe_ok_bind]
  rcases hcached : s.chConnectClient sink with _ | arguments
  · exact iff_of_true h (Or.inl rfl)
  · rw [or_iff_right (Option.some_ne_none arguments)]
    exact tidy_dropClient_iff h hcached closes.toBool

theorem tidy_step (h : Tidy s) (hs : step s c a = some t) : Tidy t ↔ Closes s a := by
  obtain rfl := Option.some.inj hs
  cases a with
  | engine bootstrap start => exact iff_of_true (h.getEngine bootstrap start) trivial
  | client sink start opens => exact iff_of_true (h.getClient sink start opens) trivial
  | cleanUp sink closes => exact tidy_cleanUp_iff h sink closes

/-- In exactly the runs in which no client fails to close, all open clients are those of their
sinks. -/
theorem tidy_iff (c : SyncSettings κ) (accesses : List (Access ι)) :
    Runs.Throughout (step · c) Tidy ({} : Session ι κ) accesses ↔
      Runs.AllSteps (step · c) Closes {} accesses := by
  have hinit : Tidy ({} : Session ι κ) := ⟨List.nodup_nil, by simp⟩
  have hstep : ∀ (s : Session ι κ) (a : Access ι), ∃ t, step s c a = some t := fun s a => ⟨_, rfl⟩
  obtain ⟨t, hrun⟩ := Runs.exists_run hstep {} accesses
  exact Runs.throughout_iff_allSteps tidy_step hinit hrun

end

end Session

end TargetClickhouse
