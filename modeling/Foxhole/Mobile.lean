import Foxhole.Pairing
import Foxhole.Inbound

/-! Phone provisioning: the journal of prepared phones and its application to the state. -/
namespace Foxhole.Mobile
open Check Text Address

structure Phone where
  pairId : Text
  verifier : Text
  intent : Text
  name : Text
  address : Text
  mac : Text
  lanDeviceId : Option Text := none
  remoteClientId : Option Text := none
  remoteSecret : Option Text := none
  remotePort : Field ℤ := .missing
  remoteRevoked : Bool := false
deriving DecidableEq

/-- A phone with a remote client keeps its secret and port. -/
def validRemote (phone : Phone) : Bool :=
  match phone.remoteClientId, phone.remoteSecret, phone.remotePort with
  | none, _, _ => true
  | some id, some secret, .value port => (tagged "client".toList 12).accepts id &&
    (hexOf 64).accepts secret && 1 ≤ port && port ≤ 65535
  | _, _, _ => false

/-- What `journal` requires of one phone, other than identifiers new to the record. -/
def validPhone (env : Env) (phone : Phone) : Bool :=
  Pairing.validId phone.pairId && (hexOf 64).accepts phone.verifier &&
  (hexOf 64).accepts phone.intent &&
  phone.lanDeviceId.all (fun id => (tagged "device".toList 12).accepts id) &&
  1 ≤ phone.name.length && phone.name.length ≤ 48 &&
  hostAddress env.inet phone.address = some phone.address &&
  (normalizeMac phone.mac).toOption = some phone.mac && validRemote phone

/-- The entries a phone makes in the `seen` table. -/
def Phone.keys (phone : Phone) : List Text :=
  phone.pairId :: (phone.lanDeviceId.toList ++ phone.remoteClientId.toList)

/-- The journal of mobile.json; a missing file is an empty journal. -/
def journal (env : Env) (phones : List Phone) : Except Err (List Phone) := do
  require (phones.length ≤ 16) .storageError
  require (∀ phone ∈ phones, validPhone env phone = true) .storageError
  require ((phones.flatMap Phone.keys).Nodup) .storageError
  return phones

/-- Forget the phones whose pairing is no longer current. -/
def prune (env : Env) (stored : List Phone) (pairs : Pairing.Record) : Except Err (List Phone) := do
  let phones ← journal env stored
  return phones.filter fun phone =>
    Pairing.sessionCurrent pairs { id := phone.pairId, verifier := phone.verifier }

/-- What a phone asks for; its digest identifies a retry. -/
structure Intent where
  name : Text
  mac : Text
  registerPhone : Bool
  createRemote : Bool
deriving DecidableEq

structure Args where
  name : Text
  address : Text
  mac : Text
  registerPhone : Field Bool := .missing
  createRemote : Bool
deriving DecidableEq

/-- The random identifiers of one request. -/
structure Random where
  device : Text
  client : Text
  secret : Text
deriving DecidableEq

/-- `registerPhone ?? true` -/
def registers (args : Args) : Except Err Bool :=
  match args.registerPhone with
  | .missing => .ok true
  | .invalid => .error .invalidSettings
  | .value register => .ok register

/-- The listener of a new phone, chosen among the ports the state does not use. -/
def newListener (state : State) (base : Option Base) (random : Random) (phone : Phone) :
    Except Err Phone := do
  match base with
  | none => throw .inboundRequired
  | some base =>
    let used := Inbound.usedPorts state.clients
    require (used.length < Inbound.limit base) .clientLimit
    let port := Inbound.freePort base used
    require (Inbound.tooHigh port = false) .clientLimit
    return { phone with
      remotePort := port
      remoteClientId := some ("client-".toList ++ random.client)
      remoteSecret := some random.secret }

/-- A phone that is not in the journal yet. -/
def newPhone (state : State) (paired : Pairing.Session) (intent address : Text) (wish : Intent)
    (base : Option Base) (random : Random) : Except Err Phone :=
  let phone : Phone := {
    pairId := paired.id, verifier := paired.verifier, intent
    name := wish.name, address, mac := wish.mac
    lanDeviceId := if wish.registerPhone then some ("device-".toList ++ random.device) else none }
  if wish.createRemote then newListener state base random phone else .ok phone

/-- The journal with the phone of this pairing in it: the one that is there when the request
repeats it, else a new one. -/
def prepare (env : Env) (intentDigest : Intent → Text) (state : State) (stored : List Phone)
    (paired : Pairing.Session) (args : Args) (base : Option Base) (random : Random) :
    Except Err (List Phone × Phone) := do
  let phones ← journal env stored
  require (Pairing.validId paired.id = true ∧ (hexOf 64).accepts paired.verifier = true)
    .unauthorized
  let name ← Model.clientName args.name
  let address ← normalizeAddress env.inet args.address
  require (hostAddress env.inet address = some address ∧
    ((env.inet.iptoarr address).map (·.bytes.length)) = some 4) .invalidAddress
  let mac ← normalizeMac args.mac
  let register ← registers args
  let wish : Intent := { name, mac, registerPhone := register, createRemote := args.createRemote }
  let intent := intentDigest wish
  match phones.find? (·.pairId = paired.id) with
  | some phone => do
    require (phone.verifier = paired.verifier ∧ phone.intent = intent) .pairingConflict
    require (¬ (args.createRemote = true ∧ phone.remoteRevoked = true)) .clientRevoked
    return (phones, phone)
  | none => do
    require (phones.length < 16) .pairingLimit
    let phone ← newPhone state paired intent address wish base random
    let phones ← journal env (phones ++ [phone])
    return (phones, phone)

def device (phone : Phone) (id : Text) : Device where
  id
  name := phone.name
  address := some phone.address
  mac := some phone.mac
  bindMac := true
  route := .vpn

def client (phone : Phone) (id : Text) : Client where
  id := .value id
  name := .value phone.name
  deviceType := .value "smartphone".toList
  provisioned := .value true
  inbound := true
  port := phone.remotePort
  secret := .ofOption phone.remoteSecret
  allowLan := .value false

/-- A device already registered under the phone's identifier must be the phone's. -/
def sameDevice (phone : Phone) (device : Device) : Prop :=
  device.mac = some phone.mac ∧ device.address = some phone.address ∧ device.route = .vpn ∧
    device.bindMac = true

instance (phone : Phone) (device : Device) : Decidable (sameDevice phone device) := by
  unfold sameDevice; infer_instance

/-- A client already registered under the phone's identifier must be the phone's. -/
def sameClient (phone : Phone) (client : Client) : Prop :=
  client.inbound = true ∧ client.secret.value? = phone.remoteSecret ∧
    client.port = phone.remotePort

instance (phone : Phone) (client : Client) : Decidable (sameClient phone client) := by
  unfold sameClient; infer_instance

/-- Register the LAN device of a phone; the flag tells whether it was missing. -/
def applyDevice (state : State) (phone : Phone) : Except Err (State × Bool) :=
  match phone.lanDeviceId with
  | none => .ok (state, false)
  | some id => do
    require (∀ device ∈ state.devices, device.id = id → sameDevice phone device) .pairingConflict
    if state.devices.any (·.id = id) then return (state, false)
    else return ({ state with devices := state.devices ++ [device phone id] }, true)

def applyClient (state : State) (phone : Phone) : Except Err (State × Bool) :=
  match phone.remoteClientId with
  | none => .ok (state, false)
  | some id => do
    require (∀ client ∈ state.clients, client.key = id → sameClient phone client) .pairingConflict
    if state.clients.any (·.key = id) then return (state, false)
    else return ({ state with clients := state.clients ++ [client phone id] }, true)

/-- Bring the state up to the journal: at most one new device and one new client. -/
def apply (env : Env) (state : State) (phone : Phone) : Except Err (State × Bool) := do
  let state ← Model.validateState env state.raw
  let (state, newDevice) ← applyDevice state phone
  let (state, newClient) ← applyClient state phone
  let changed := newDevice || newClient
  let state := if changed then { state with revision := state.revision + 1 } else state
  let state ← Model.validateState env state.raw
  return (state, changed)

end Foxhole.Mobile
