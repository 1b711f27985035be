import Foxhole.Mobile

/-! The state-changing RPC calls of rpcd/ucode/foxhole.uc, each as the files it leaves. -/
namespace Foxhole
open Check Text Address

/-- The files the RPC layer keeps under /etc/foxhole. -/
structure Disk where
  state : RawState
  mobile : List Mobile.Phone := []
  pairs : Pairing.Record := Pairing.defaults
  base : Option Base := none
deriving DecidableEq

/-- `random_hex(n / 2)`: that many lower-case hexadecimal digits. -/
abbrev Hex (n : ℕ) : Type := { t : Text // (hexOf n).accepts t = true }

/-- What a call draws from the random source. -/
structure Draw where
  id : Hex 12
  device : Hex 12
  secret : Hex 64
deriving DecidableEq

/-- What a call reads outside the files of `Disk`. -/
structure Outside where
  /-- `standalone_setting()`, from the UCI configuration -/
  standalone : Bool
  /-- the neighbour table -/
  resolveMac : Text → Option Text
  /-- the native importer behind `core_adapter.admit` -/
  coreImport : Text → Option Text
  /-- `backup_service.revocation_revision_allowed` -/
  revisionAllowed : Bool
  /-- whether `inbound.profile(base, client)` returns -/
  profile : Base → Client → Bool
  /-- `remote.prepare(remote_wan_address())` -/
  remoteBase : Except Err Base
  draw : Draw

/-- `write_json(STATE_PATH, state)` -/
def Disk.write (disk : Disk) (state : State) : Disk := { disk with state := state.raw }

/-- The identifiers a draw may be used for. -/
def Draw.ids (draw : Draw) : List Text :=
  ["server-".toList ++ draw.id, "client-".toList ++ draw.id, "device-".toList ++ draw.device]

/-- The stored servers. -/
def Disk.servers (disk : Disk) : List Server := disk.state.servers.value?.getD []

/-- The stored clients. -/
def Disk.clients (disk : Disk) : List Client := disk.state.clients.value?.getD []

/-- The stored devices. -/
def Disk.devices (disk : Disk) : List RawDevice := disk.state.devices.value?.getD []

/-- The identifiers of the stored records. -/
def Disk.ids (disk : Disk) : List Text :=
  disk.servers.map Server.key ++ disk.clients.map Client.key ++
  disk.devices.map RawDevice.id ++
  disk.mobile.flatMap Mobile.Phone.keys

namespace Rpc

structure SettingsArgs where
  revision : Field ℤ
  settings : Field RawSettings
  countries : Field (List RawCountry) := .missing
  devices : Field (List RawDevice) := .missing
  sites : Field (List RawSite) := .missing
deriving DecidableEq

structure ServerArgs where
  revision : Field ℤ
  config : Field Text
  id : Field Text := .missing
  name : Field Text := .missing
  engine : Field Text := .missing
  subscription : Field Subscription := .missing
deriving DecidableEq

/-- The arguments of the calls that name one record. -/
structure IdArgs where
  revision : Field ℤ
  id : Text
deriving DecidableEq

structure ClientArgs where
  revision : Field ℤ
  name : Text
  deviceType : Text
  serverId : Field Text := .missing
deriving DecidableEq

structure ProvisionArgs where
  name : Text
  address : Text
  registerPhone : Field Bool := .missing
  createRemote : Bool
deriving DecidableEq

def validRevision (value : Field ℤ) : Except Err ℕ :=
  match value with
  | .value n => if 0 ≤ n ∧ n ≤ 0x7fffffff then .ok n.toNat else .error .revisionConflict
  | _ => .error .revisionConflict

/-- The stored state, with the standalone switch of the UCI configuration laid over it. -/
def stateRecord (env : Env) (out : Outside) (disk : Disk) : Except Err State := do
  let state ← Model.validateState env disk.state
  return { state with settings := { state.settings with standaloneAccess := out.standalone } }

/-- The stored state at the revision the caller expects. -/
def stateAt (env : Env) (out : Outside) (disk : Disk) (revision : Field ℤ) : Except Err State := do
  let expected ← validRevision revision
  let state ← stateRecord env out disk
  require (state.revision = expected) .revisionConflict
  return state

/-- As `stateAt`, for the calls that revoke: they also pass right behind a restore. -/
def stateForRevocation (env : Env) (out : Outside) (disk : Disk) (revision : Field ℤ)
    (allowed : Bool) : Except Err State := do
  let expected ← validRevision revision
  let state ← stateRecord env out disk
  require (state.revision = expected ∨ allowed = true) .revisionConflict
  return state

/-- `state.revision++` -/
def bump (state : State) : State := { state with revision := state.revision + 1 }

def settingsCall (env : Env) (out : Outside) (disk : Disk) (args : SettingsArgs) :
    Except Err Disk := do
  let state ← stateAt env out disk args.revision
  let checked ← Policy.validateSettings env.inet out.resolveMac
    { settings := args.settings, countries := args.countries, devices := args.devices,
      sites := args.sites }
  let settings := { checked.settings with standaloneAccess := state.settings.standaloneAccess }
  return disk.write (bump { state with
    settings, countries := checked.countries, devices := checked.devices, sites := checked.sites })

/-- What `admit_server` makes of a configuration. -/
structure Admitted where
  endpoint : Text
  raw : Text
  protocol : Option Text := none
  portableProfile : Field Portable := .missing
deriving DecidableEq

/-- `core_adapter.admit`: the imported configuration, its description and the portable profile. -/
def admitCore (env : Env) (out : Outside) (raw : Text) : Except Err Admitted := do
  require (2 ≤ raw.length ∧ raw.length ≤ 262144) .unsupportedConfig
  match out.coreImport raw with
  | none => throw .unsupportedConfig
  | some imported => do
    let parsed ← Core.describe env (.value imported)
    return {
      endpoint := parsed.endpoint
      raw := imported
      protocol := some parsed.protocol
      portableProfile := .value {
        content := raw, sha256 := env.sha256 raw, configSha256 := env.sha256 imported } }

/-- `parse_config`, kept as the trimmed text. -/
def admitLegacy (env : Env) (config : Field Text) : Except Err Admitted := do
  let parsed ← Model.parseConfig env config
  return { endpoint := parsed.endpoint, raw := trim (config.value?.getD []) }

def admitServer (env : Env) (out : Outside) (config engine : Field Text) : Except Err Admitted :=
  match engine with
  | .missing | .value [] => admitLegacy env config
  | engine =>
    if engine = .value "hysteria".toList then admitLegacy env config
    else if engine = Model.engineCore then
      match config with
      | .value config => admitCore env out config
      | _ => throw .unsupportedConfig
    else throw .unsupportedConfig

/-- The record of a new server. -/
def newServer (id name : Text) (parsed : Admitted) (subscription : Option Subscription) :
    Server where
  id := .value id
  name := .value name
  endpoint := .value parsed.endpoint
  config := .value parsed.raw
  engine := if parsed.protocol.isSome then Model.engineCore else .missing
  protocol := .ofOption parsed.protocol
  portableProfile := parsed.portableProfile
  subscription := .ofOption subscription

/-- Saving the configuration a core server already has keeps its portable profile. -/
def preservesPortable (server : Server) (parsed : Admitted) (config : Text) : Bool :=
  parsed.protocol.isSome && server.config.value?.map trim = some (trim config) &&
    server.portableProfile ≠ .missing

def updateServer (server : Server) (name : Text) (parsed : Admitted) (config : Text)
    (subscription : Option Subscription) : Server :=
  { newServer server.key name parsed subscription with
    portableProfile :=
      if preservesPortable server parsed config then server.portableProfile
      else parsed.portableProfile }

/-- The server list with the record of `id` rewritten. -/
def replaceServer (servers : List Server) (id name : Text) (parsed : Admitted) (config : Text)
    (subscription : Option Subscription) : List Server :=
  servers.map fun server =>
    if server.key = id then updateServer server name parsed config subscription else server

/-- `args.id || next_id('server')` -/
def serverId (out : Outside) (id : Field Text) : Except Err (Text × Bool) :=
  match id with
  | .missing | .value [] => .ok ("server-".toList ++ out.draw.id, false)
  | .invalid => .error .notFound
  | .value id =>
    if (tagged "server".toList 12).accepts id = true then .ok (id, true) else .error .notFound

/-- `args.name || 'VPN SERVER 01'` -/
def nameOrDefault (name : Field Text) : Except Err Text :=
  match name with
  | .missing | .value [] => Model.serverName "VPN SERVER 01".toList
  | .invalid => .error .invalidName
  | .value name => Model.serverName name

def saveServer (env : Env) (out : Outside) (disk : Disk) (args : ServerArgs) : Except Err Disk := do
  let parsed ← admitServer env out args.config args.engine
  let subscription ← Core.subscription args.subscription
  require (∀ s ∈ subscription, s.selectedProtocol = parsed.protocol.getD "hysteria2".toList)
    .invalidConfig
  let (id, given) ← serverId out args.id
  let name ← nameOrDefault args.name
  let state ← stateAt env out disk args.revision
  if state.servers.any (·.key = id) then
    let config := args.config.value?.getD []
    return disk.write (bump { state with
      servers := replaceServer state.servers id name parsed config subscription })
  else do
    require (given = false) .notFound
    return disk.write (bump { state with
      servers := state.servers ++ [newServer id name parsed subscription] })

def deleteServer (env : Env) (out : Outside) (disk : Disk) (args : IdArgs) : Except Err Disk := do
  let state ← stateAt env out disk args.revision
  require (state.servers.any (·.key = args.id) = true) .notFound
  return disk.write (bump { state with
    servers := state.servers.eraseP (·.key = args.id)
    activeServerId := if state.activeServerId = some args.id then none else state.activeServerId
    clients := state.clients.map fun client =>
      if client.serverId = .value args.id then { client with serverId := .missing } else client })

/-- `runtime_model.hysteria_config(state, null)`, run unless the server is a core one: it fails
when the configuration does. -/
def hysteriaConfig (env : Env) (server : Server) : Except Err Unit :=
  if server.engine = Model.engineCore then .ok ()
  else discard (Model.parseConfig env server.config)

def startServer (env : Env) (out : Outside) (disk : Disk) (args : IdArgs) : Except Err Disk := do
  let state ← stateAt env out disk args.revision
  match state.servers.find? (·.key = args.id) with
  | none => throw .notFound
  | some selected => do
    hysteriaConfig env selected
    if state.activeServerId = some args.id then return disk
    else return disk.write (bump { state with activeServerId := some args.id })

def stopServer (env : Env) (out : Outside) (disk : Disk) (revision : Field ℤ) :
    Except Err Disk := do
  let state ← stateForRevocation env out disk revision out.revisionAllowed
  if state.activeServerId = none then return disk
  else return disk.write (bump { state with activeServerId := none })

/-- The server an outgoing client is bound to: the named one, or the first. -/
def chooseServer (state : State) (serverId : Field Text) : Except Err (Field Text) :=
  match serverId with
  | .missing | .value [] => .ok (match state.servers with
    | [] => .missing
    | server :: _ => .value server.key)
  | .invalid => .error .notFound
  | .value id => if state.servers.any (·.key = id) then .ok (.value id) else .error .notFound

/-- The client with a listener of its own. -/
def listener (state : State) (base : Base) (out : Outside) (client : Client) :
    Except Err Client := do
  let used := Inbound.usedPorts state.clients
  require (used.length < Inbound.limit base) .clientLimit
  return { client with
    inbound := true
    port := Inbound.freePort base used
    secret := .value out.draw.secret.1
    allowLan := .value false
    serverId := .missing }

/-- A client saved while there is an inbound base owns a listener. -/
def savedClient (state : State) (base : Option Base) (out : Outside) (client : Client) :
    Except Err Client :=
  match base with
  | none => .ok client
  | some base => listener state base out client

/-- A new client of one of the saved servers. -/
def outgoingClient (id name deviceType : Text) (serverId : Field Text) : Client where
  id := .value id
  name := .value name
  deviceType := .value deviceType
  serverId := serverId
  provisioned := .value false

def saveClient (env : Env) (out : Outside) (disk : Disk) (args : ClientArgs) : Except Err Disk := do
  let name ← Model.clientName args.name
  require (args.deviceType ∈ Model.deviceTypes) .invalidName
  let state ← stateAt env out disk args.revision
  let serverId ← chooseServer state args.serverId
  let client := outgoingClient ("client-".toList ++ out.draw.id) name args.deviceType serverId
  let client ← savedClient state disk.base out client
  return disk.write (bump { state with clients := state.clients ++ [client] })

/-- Rewrite the first client that `p` holds of. -/
def mapFirst (p : Client → Bool) (f : Client → Client) : List Client → List Client
  | [] => []
  | client :: clients => if p client then f client :: clients else client :: mapFirst p f clients

def updateClient (env : Env) (out : Outside) (disk : Disk) (args : IdArgs) (name : Text) :
    Except Err Disk := do
  let name ← Model.clientName name
  let state ← stateAt env out disk args.revision
  require (state.clients.any (·.key = args.id) = true) .notFound
  return disk.write (bump { state with
    clients := mapFirst (·.key = args.id) (fun client => { client with name := .value name })
      state.clients })

def clientAccess (env : Env) (out : Outside) (disk : Disk) (args : IdArgs) (allowLan : Bool) :
    Except Err Disk := do
  require (Inbound.shared (disk.base.getD {}) = false) .clientRulesUnsupported
  let state ← stateForRevocation env out disk args.revision (!allowLan && out.revisionAllowed)
  require (state.clients.any (fun client => client.key = args.id && client.inbound) = true)
    .notFound
  return disk.write (bump { state with
    clients := mapFirst (fun client => client.key = args.id && client.inbound)
      (fun client => { client with allowLan := .value allowLan }) state.clients })

/-- The tombstones a deleted listener leaves in the phone journal. -/
def revokePhones (phones : List Mobile.Phone) (id : Text) : List Mobile.Phone :=
  phones.map fun phone =>
    if phone.remoteClientId = some id then { phone with remoteRevoked := true } else phone

/-- Delete a client; the flag is `targetRevoked`. -/
def deleteClient (env : Env) (out : Outside) (disk : Disk) (args : IdArgs) :
    Except Err (Disk × Bool) := do
  let state ← stateForRevocation env out disk args.revision out.revisionAllowed
  match state.clients.find? (·.key = args.id) with
  | none => throw .notFound
  | some client => do
    let state := bump { state with clients := state.clients.eraseP (·.key = args.id) }
    if client.inbound then do
      let phones ← Mobile.journal env disk.mobile
      return ({ disk.write state with mobile := revokePhones phones args.id }, true)
    else return (disk.write state, false)

/-- What `phone.provision` has computed when it starts to write. -/
structure Provision where
  base : Option Base
  phones : List Mobile.Phone
  phone : Mobile.Phone
  state : State
  changed : Bool
deriving DecidableEq

/-- The inbound base of a provision; the first remote phone creates it. -/
def provisionBase (out : Outside) (disk : Disk) (createRemote : Bool) : Except Err (Option Base) :=
  match disk.base with
  | some base => .ok (some base)
  | none => if createRemote then some <$> out.remoteBase else .ok none

def prepareProvision (env : Env) (intentDigest : Mobile.Intent → Text) (out : Outside) (disk : Disk)
    (paired : Pairing.Session) (args : ProvisionArgs) : Except Err Provision := do
  let address ← normalizeAddress env.inet args.address
  match out.resolveMac address with
  | none => throw .macNotFound
  | some mac => do
    require (Pairing.sessionCurrent disk.pairs paired = true) .unauthorized
    let state ← stateRecord env out disk
    let base ← provisionBase out disk args.createRemote
    let stored ← Mobile.prune env disk.mobile disk.pairs
    let (phones, phone) ← Mobile.prepare env intentDigest state stored paired
      { name := args.name, address, mac, registerPhone := args.registerPhone,
        createRemote := args.createRemote } base
      { device := out.draw.device, client := out.draw.id, secret := out.draw.secret }
    let (state, changed) ← Mobile.apply env state phone
    require (∀ client ∈ state.clients, some client.key = phone.remoteClientId →
      base.any (out.profile · client) = true) .invalidConfig
    return { base, phones, phone, state, changed }

/-- The journal is written first, then the state. -/
def Provision.files (provision : Provision) (disk : Disk) : Disk where
  state := if provision.changed then provision.state.raw else disk.state
  mobile := provision.phones
  pairs := disk.pairs
  base := provision.base

/-- The files of a provision that stops between its two writes. -/
def Provision.journalled (provision : Provision) (disk : Disk) : Disk where
  state := disk.state
  mobile := provision.phones
  pairs := disk.pairs
  base := provision.base

def setupReset (env : Env) (out : Outside) (disk : Disk) (revision : Field ℤ) :
    Except Err Disk := do
  let state ← stateAt env out disk revision
  require (state.revision < 0x7fffffff) .revisionConflict
  let cleared := { Model.defaults with revision := state.revision + 1 }
  return { state := cleared.raw, mobile := [], pairs := Pairing.defaults, base := none }

inductive Request where
  | settings (args : SettingsArgs)
  | saveServer (args : ServerArgs)
  | deleteServer (args : IdArgs)
  | startServer (args : IdArgs)
  | stopServer (revision : Field ℤ)
  | saveClient (args : ClientArgs)
  | updateClient (args : IdArgs) (name : Text)
  | clientAccess (args : IdArgs) (allowLan : Bool)
  | deleteClient (args : IdArgs)
  | provision (paired : Pairing.Session) (args : ProvisionArgs)
  /-- a provision that crashes, or fails to store, between its two writes -/
  | provisionCut (paired : Pairing.Session) (args : ProvisionArgs)
  /-- a provision that fails right behind `remote.prepare` -/
  | provisionRefused (createRemote : Bool)
  | setupReset (revision : Field ℤ)
  | pairCreate (id credential name : Text) (created : ℤ) (client clientVersion : Field Text)
  | pairRevoke (id : Text)
  | setPin
deriving DecidableEq

/-- The files a call leaves when it writes, or the code it dies with. -/
def perform (env : Env) (intentDigest : Mobile.Intent → Text) (out : Outside) (disk : Disk) :
    Request → Except Err Disk
  | .settings args => settingsCall env out disk args
  | .saveServer args => saveServer env out disk args
  | .deleteServer args => deleteServer env out disk args
  | .startServer args => startServer env out disk args
  | .stopServer revision => stopServer env out disk revision
  | .saveClient args => saveClient env out disk args
  | .updateClient args name => updateClient env out disk args name
  | .clientAccess args allowLan => clientAccess env out disk args allowLan
  | .deleteClient args => Prod.fst <$> deleteClient env out disk args
  | .provision paired args =>
    (·.files disk) <$> prepareProvision env intentDigest out disk paired args
  | .provisionCut paired args =>
    (·.journalled disk) <$> prepareProvision env intentDigest out disk paired args
  | .provisionRefused createRemote => do
    let base ← provisionBase out disk createRemote
    return { disk with base }
  | .setupReset revision => setupReset env out disk revision
  | .pairCreate id credential name created client clientVersion => do
    let pairs ← Pairing.register env disk.pairs id credential name created client clientVersion
    return { disk with pairs }
  | .pairRevoke id => do
    let pairs ← Pairing.revoke disk.pairs id
    return { disk with pairs }
  | .setPin => .ok { disk with pairs := Pairing.defaults }

/-- The files, and the identifiers the random source has returned so far. -/
structure World where
  disk : Disk
  issued : List Text := []
deriving DecidableEq

/-- The random source never repeats an identifier. -/
def Fresh (world : World) (draw : Draw) : Prop :=
  ∀ id ∈ draw.ids, id ∉ world.issued ∧ id ∉ world.disk.ids

/-- One call that writes; a call that dies leaves the files as they are. -/
inductive Step (env : Env) (intentDigest : Mobile.Intent → Text) :
    World → Request × Outside → World → Prop
  | call {world : World} {request : Request} {out : Outside} {disk : Disk} :
      Fresh world out.draw → perform env intentDigest out world.disk request = .ok disk →
      Step env intentDigest world (request, out) ⟨disk, out.draw.ids ++ world.issued⟩

end Rpc
end Foxhole
