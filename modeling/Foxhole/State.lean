import Foxhole.PolicyChecked

/-! The stored state: servers, clients and the policy, as model.uc and core-model.uc check it. -/
namespace Foxhole
open Check Text Address

structure Portable where
  content : Text
  sha256 : Text
  configSha256 : Text
deriving DecidableEq

structure Subscription where
  sourceUrl : Text
  selectedProtocol : Text
  selectedNodeName : Text
  selectedOptionId : Text
  phoneProfileId : Text
deriving DecidableEq

structure Server where
  id : Field Text
  name : Field Text
  endpoint : Field Text
  config : Field Text
  engine : Field Text := .missing
  protocol : Field Text := .missing
  portableProfile : Field Portable := .missing
  subscription : Field Subscription := .missing
deriving DecidableEq

structure Client where
  id : Field Text
  name : Field Text
  deviceType : Field Text
  serverId : Field Text := .missing
  provisioned : Field Bool := .missing
  inbound : Bool := false
  port : Field ℤ := .missing
  secret : Field Text := .missing
  allowLan : Field Bool := .missing
deriving DecidableEq

structure State extends Policy where
  revision : ℕ
  activeServerId : Option Text
  servers : List Server
  clients : List Client
deriving DecidableEq

/-- state.json as `json()` returns it. -/
structure RawState where
  schema : Field ℤ
  revision : Field ℤ
  activeServerId : Field Text
  settings : Field RawSettings
  countries : Field (List RawCountry)
  devices : Field (List RawDevice)
  sites : Field (List RawSite)
  servers : Field (List Server)
  clients : Field (List Client)
deriving DecidableEq

/-- The members of a decoded core configuration that the router reads. -/
structure CoreDocument where
  schemaVersion : Field ℤ
  type : Field Text
  server : Field Text
  port : Field ℤ
deriving DecidableEq

structure Parsed where
  name : Text
  endpoint : Text
deriving DecidableEq

/-- The pure functions outside this model: the address and digest builtins, the JSON decoder on
core configurations, and the three configuration syntaxes behind `parse_config`. -/
structure Env where
  inet : Inet
  sha256 : Text → Text
  coreJson : Text → Option CoreDocument
  parseBody : Text → Except Err Parsed

def Server.key (server : Server) : Text := server.id.value?.getD []

def Client.key (client : Client) : Text := client.id.value?.getD []

def Server.keys (server : Server) : List Text := [server.key]

def Client.keys (client : Client) : List Text := [client.key]

/-- The identifiers of the servers, as the `ids` table holds them before the clients are read. -/
def serverIds (servers : List Server) : List Text := seenAfter Server.keys [] servers

@[simp] theorem mem_serverIds {id : Text} {servers : List Server} :
    id ∈ serverIds servers ↔ ∃ server ∈ servers, server.key = id := by
  simp [serverIds, Server.keys, eq_comm]

namespace Core

def protocols : List Text :=
  ["vless", "vmess", "hysteria2", "tuic", "trojan", "shadowsocks", "wireguard", "naive", "anytls",
    "shadowtls", "socks", "http"].map String.toList

structure Described where
  protocol : Text
  endpoint : Text
deriving DecidableEq

/-- `describe` on a decoded document. -/
def describeDocument (doc : CoreDocument) : Except Err Described :=
  match doc.schemaVersion, doc.type, doc.server, doc.port with
  | .value 1, .value protocol, .value server, .value port => do
    require (protocol ∈ protocols) .invalidConfig
    require (1 ≤ server.length ∧ server.length ≤ 253) .invalidConfig
    require (∀ c ∈ server, ¬ (isCntrl c = true ∨ c = ' ' ∨ c = '/')) .invalidConfig
    require (1 ≤ port ∧ port ≤ 65535) .invalidConfig
    let host := if ':' ∈ server then '[' :: server ++ [']'] else server
    return { protocol, endpoint := host ++ ':' :: decimal port.toNat }
  | _, _, _, _ => throw .invalidConfig

def describe (env : Env) (raw : Field Text) : Except Err Described :=
  match raw with
  | .value raw => do
    require (2 ≤ raw.length ∧ raw.length ≤ 262144) .invalidConfig
    match env.coreJson raw with
    | some doc => describeDocument doc
    | none => throw .invalidConfig
  | _ => throw .invalidConfig

def server (env : Env) (value : Server) : Except Err Unit := do
  require (value.engine = .value "core".toList) .invalidConfig
  let parsed ← describe env value.config
  require (value.protocol = .value parsed.protocol) .invalidConfig
  require (value.endpoint = .value parsed.endpoint) .invalidConfig

/-- `^(https|ssconf):\/\/` -/
def sourceScheme : Regex Char :=
  .alt (.lit "https://".toList) (.lit "ssconf://".toList)

/-- `^(https|ssconf):\/\/.*` -/
def sourceShape : Regex Char := .seq sourceScheme (.star (.cls fun _ => true))

/-- `^(https|ssconf):\/\/[^\/]*@` -/
def sourceCredentials : Regex Char :=
  .seq sourceScheme
    (.seq (.star (.cls (· != '/'))) (.seq (.lit ['@']) (.star (.cls fun _ => true))))

def boundedText (limit : ℕ) (value : Text) : Prop :=
  1 ≤ value.length ∧ value.length ≤ limit ∧ hasCntrl value = false

instance (limit : ℕ) (value : Text) : Decidable (boundedText limit value) := by
  unfold boundedText; infer_instance

/-- A checked subscription is returned as it is; none is none. -/
def subscription (value : Field Subscription) : Except Err (Option Subscription) :=
  match value with
  | .missing => .ok none
  | .invalid => .error .invalidConfig
  | .value value => do
    require (boundedText 4096 value.sourceUrl) .invalidConfig
    require (boundedText 32 value.selectedProtocol) .invalidConfig
    require (boundedText 512 value.selectedNodeName) .invalidConfig
    require (boundedText 128 value.selectedOptionId) .invalidConfig
    require (boundedText 128 value.phoneProfileId) .invalidConfig
    require (value.selectedProtocol ∈ protocols) .invalidConfig
    require (sourceShape.accepts value.sourceUrl = true) .invalidConfig
    require (sourceCredentials.accepts value.sourceUrl = false) .invalidConfig
    return some value

/-- The portable profile kept beside a core configuration. -/
def portable (env : Env) (value : Field Portable) (config : Text) : Except Err Unit :=
  match value with
  | .missing => .ok ()
  | .invalid => .error .invalidConfig
  | .value value => do
    require (2 ≤ value.content.length ∧ value.content.length ≤ 262144) .invalidConfig
    require (value.sha256 = env.sha256 value.content) .invalidConfig
    require (value.configSha256 = env.sha256 config) .invalidConfig

end Core

namespace Model

def parseConfig (env : Env) (raw : Field Text) : Except Err Parsed :=
  match raw with
  | .value raw => do
    require (raw.length ≤ 16384 ∧ trim raw ≠ []) .invalidConfig
    env.parseBody (trim raw)
  | _ => throw .invalidConfig

/-- A name of at most thirteen UTF-8 characters. -/
def serverName (value : Text) : Except Err Text := do
  require (hasCntrl value = false) .invalidName
  let name := trim value
  let count := name.countP fun c => c.toNat &&& 0xc0 != 0x80
  require (1 ≤ count ∧ count ≤ 13) .invalidName
  return name

def clientName (value : Text) : Except Err Text := do
  require (Core.boundedText 48 value) .invalidName
  require (Char.ofNat 0 ∉ value) .invalidName
  let name := trim value
  require (name ≠ []) .invalidName
  return name

def defaults : State where
  settings := {}
  countries := []
  devices := []
  sites := []
  revision := 0
  activeServerId := none
  servers := []
  clients := []

def engineCore : Field Text := .value "core".toList

/-- A core server describes itself and keeps a fitting portable profile; any other parses. -/
def checkEngine (env : Env) (server : Server) : Except Err Unit :=
  if server.engine = engineCore then do
    Core.server env server
    Core.portable env server.portableProfile (server.config.value?.getD [])
  else do
    require (server.engine = .missing ∨ server.engine = .value "hysteria".toList) .storageError
    discard (parseConfig env server.config)

/-- The checks of one server that do not depend on the other servers. -/
def checkServerBody (env : Env) (server : Server) : Except Err Unit := do
  require ((tagged "server".toList 12).accepts server.key = true) .storageError
  require (server.name.value? ≠ none ∧ server.endpoint.value? ≠ none) .storageError
  require (server.config ≠ .missing ∧ server.config ≠ .value []) .storageError
  checkEngine env server
  discard (Core.subscription server.subscription)

def checkServer (env : Env) (seen : List Text) (server : Server) : Except Err Server := do
  require (server.key ∉ seen) .storageError
  checkServerBody env server
  return server

def deviceTypes : List Text :=
  ["smartphone", "tablet", "computer", "mobile", "desktop"].map String.toList

/-- An inbound client owns a secret, a port and a LAN switch. -/
def listens (client : Client) : Bool :=
  match client.secret, client.port, client.allowLan with
  | .value secret, .value port, .value _ => (hexOf 64).accepts secret && 1 ≤ port && port ≤ 65535
  | _, _, _ => false

/-- The checks of one client that do not depend on the records before it. -/
def clientShape (client : Client) : Bool :=
  (tagged "client".toList 12).accepts client.key && client.name.value?.isSome &&
  (client.deviceType.value?.any (· ∈ deviceTypes)) && (!client.inbound || listens client)

/-- A client refers to nothing, or to an identifier already in the `ids` table. That table holds
the servers and, by then, also the clients before this one. -/
def refersTo (seen : List Text) (serverId : Field Text) : Bool :=
  match serverId with
  | .missing => true
  | .invalid => false
  | .value id => id ∈ seen

def checkClient (seen : List Text) (client : Client) : Except Err Client := do
  require (clientShape client = true ∧ client.key ∉ seen ∧ refersTo seen client.serverId = true)
    .storageError
  return client

/-- `activeServerId` is null or one of the server identifiers. -/
def checkActive (ids : List Text) (active : Field Text) : Except Err (Option Text) :=
  match active with
  | .missing => .ok none
  | .invalid => .error .storageError
  | .value id => if id ∈ ids then .ok (some id) else .error .storageError

/-- A member `validate_state` requires. -/
def required {α : Type} (field : Field α) : Except Err α :=
  match field with
  | .value a => .ok a
  | _ => .error .storageError

def validateState (env : Env) (raw : RawState) : Except Err State := do
  require (raw.schema = .value 1) .storageError
  let revision ← required raw.revision
  require (0 ≤ revision) .storageError
  require (raw.settings ≠ .missing) .storageError
  let policy ← Policy.validateSettings env.inet (fun _ => none)
    { settings := raw.settings, countries := raw.countries, devices := raw.devices,
      sites := raw.sites }
  let servers ← required raw.servers
  let clients ← required raw.clients
  let servers ← scan Server.keys (checkServer env) [] servers
  let activeServerId ← checkActive (serverIds servers) raw.activeServerId
  let clients ← scan Client.keys checkClient (serverIds servers) clients
  return { policy with revision := revision.toNat, activeServerId, servers, clients }

end Model

/-- The JSON form of a state that the router writes. -/
def State.raw (state : State) : RawState where
  schema := .value 1
  revision := .value state.revision
  activeServerId := .ofOption state.activeServerId
  settings := state.toPolicy.raw.settings
  countries := state.toPolicy.raw.countries
  devices := state.toPolicy.raw.devices
  sites := state.toPolicy.raw.sites
  servers := .value state.servers
  clients := .value state.clients

/-- The invariant of the stored state, in its own terms. -/
structure State.Ok (env : Env) (state : State) : Prop where
  policy : state.toPolicy.Ok env.inet
  servers : Scanned Server.keys (fun _ server => Model.checkServerBody env server = .ok ()) []
    state.servers
  active : ∀ id ∈ state.activeServerId, id ∈ serverIds state.servers
  clients : Scanned Client.keys (fun seen client => Model.clientShape client = true ∧
    Model.refersTo seen client.serverId = true) (serverIds state.servers) state.clients

namespace Model
variable {env : Env} {raw : RawState} {state : State} {seen : List Text} {server s : Server}
  {client c : Client}

theorem checkEngine_eq_ok : checkEngine env server = .ok () ↔
    (server.engine = engineCore ∧ Core.server env server = .ok () ∧
      Core.portable env server.portableProfile (server.config.value?.getD []) = .ok ()) ∨
    ((server.engine = .missing ∨ server.engine = .value "hysteria".toList) ∧
      Succeeds (parseConfig env server.config)) := by
  by_cases he : server.engine = engineCore
  · have hne : ¬ (server.engine = .missing ∨ server.engine = .value "hysteria".toList) := by
      rw [he]; decide
    simp only [checkEngine, he, if_true, true_and, bind_eq_ok]
    rw [he] at hne
    simp only [hne, false_and, or_false]
    constructor
    · rintro ⟨_, h⟩
      exact h
    · intro h
      exact ⟨(), h⟩
  · simp only [checkEngine, he, if_false, false_and, false_or, bind_eq_ok, require_eq_ok,
      discard_eq_ok]
    constructor
    · rintro ⟨_, h⟩
      exact h
    · intro h
      exact ⟨(), h⟩

theorem checkServerBody_eq_ok : checkServerBody env server = .ok () ↔
    (tagged "server".toList 12).accepts server.key = true ∧
    (server.name.value? ≠ none ∧ server.endpoint.value? ≠ none) ∧
    (server.config ≠ .missing ∧ server.config ≠ .value []) ∧
    checkEngine env server = .ok () ∧ Succeeds (Core.subscription server.subscription) := by
  simp only [checkServerBody, bind_eq_ok, require_eq_ok, discard_eq_ok]
  constructor
  · rintro ⟨_, h1, _, h2, _, h3, _, h4, h5⟩
    exact ⟨h1, h2, h3, h4, h5⟩
  · rintro ⟨h1, h2, h3, h4, h5⟩
    exact ⟨(), h1, (), h2, (), h3, (), h4, h5⟩

theorem checkServer_eq_ok : checkServer env seen server = .ok s ↔
    (checkServerBody env server = .ok () ∧ (server.keys).Disjoint seen) ∧ server = s := by
  simp only [checkServer, bind_eq_ok, require_eq_ok, pure_eq_ok, Server.keys,
    List.singleton_disjoint]
  constructor
  · rintro ⟨-, hs, ⟨⟩, hb, rfl⟩
    exact ⟨⟨hb, hs⟩, rfl⟩
  · rintro ⟨⟨hb, hs⟩, rfl⟩
    exact ⟨(), hs, (), hb, rfl⟩

theorem checkClient_eq_ok : checkClient seen client = .ok c ↔
    ((clientShape client = true ∧ refersTo seen client.serverId = true) ∧
      (client.keys).Disjoint seen) ∧ client = c := by
  simp only [checkClient, bind_eq_ok, require_eq_ok, pure_eq_ok, Client.keys,
    List.singleton_disjoint]
  constructor
  · rintro ⟨-, ⟨hc, hs, hr⟩, rfl⟩
    exact ⟨⟨⟨hc, hr⟩, hs⟩, rfl⟩
  · rintro ⟨⟨⟨hc, hr⟩, hs⟩, rfl⟩
    exact ⟨(), ⟨hc, hs, hr⟩, rfl⟩

theorem checkActive_ok {ids : List Text} {f : Field Text} {active : Option Text}
    (h : checkActive ids f = .ok active) : ∀ id ∈ active, id ∈ ids := by
  rcases f with _ | _ | id
  · cases h; simp
  · cases h
  · by_cases hid : id ∈ ids
    · simp only [checkActive, hid, if_true] at h
      cases h
      simpa using hid
    · simp [checkActive, hid] at h

theorem checkActive_ofOption {ids : List Text} {active : Option Text}
    (h : ∀ id ∈ active, id ∈ ids) : checkActive ids (.ofOption active) = .ok active := by
  cases active with
  | none => rfl
  | some id => simp [checkActive, h id rfl]

/-- What `validate_state` accepts satisfies the invariant. -/
theorem validateState_ok (h : validateState env raw = .ok state) : state.Ok env := by
  simp only [validateState, bind_eq_ok, require_eq_ok, pure_eq_ok] at h
  obtain ⟨-, -, rev, -, -, -, -, -, policy, hp, servers, -, clients, -, vs, hvs,
    active, ha, cs, hcs,
    rfl⟩ := h
  exact {
    policy := Policy.validateSettings_ok hp
    servers := scanned_of_scan (fun _ _ _ hs =>
      let hs := checkServer_eq_ok.1 hs
      hs.2 ▸ hs.1) hvs
    active := checkActive_ok ha
    clients := scanned_of_scan (fun _ _ _ hc =>
      let hc := checkClient_eq_ok.1 hc
      hc.2 ▸ hc.1) hcs }

/-- A state that satisfies the invariant is accepted as it is written. -/
theorem validateState_raw (h : state.Ok env) : validateState env state.raw = .ok state := by
  have hp := Policy.validateSettings_raw (fun _ => none) h.policy
  have hvs : scan Server.keys (checkServer env) [] state.servers = .ok state.servers := by
    simpa using scan_of_scanned (g := id)
      (fun _ _ hb hs => checkServer_eq_ok.2 ⟨⟨hb, hs⟩, rfl⟩) h.servers
  have hcs : scan Client.keys checkClient (serverIds state.servers) state.clients =
      .ok state.clients := by
    simpa using scan_of_scanned (g := id)
      (fun _ _ hb hs => checkClient_eq_ok.2 ⟨⟨hb, hs⟩, rfl⟩) h.clients
  rw [State.raw]
  simp only [validateState, bind_eq_ok, require_eq_ok, pure_eq_ok]
  exact ⟨(), trivial, _, rfl, (), by simp, (), by rintro ⟨⟩, _, hp, _, rfl, _, rfl, _, hvs, _,
    checkActive_ofOption h.active, _, hcs, by simp⟩

end Model
end Foxhole
