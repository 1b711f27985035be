import Foxhole.ClientExport

/-! The public state that a call returns: runtime.json and pairing.json are read behind the
write. -/
namespace Foxhole.Rpc
open Check Text

/-! pairing.json. -/

/-- A device as it is stored. `unknown` says that it has a member outside its list. -/
structure StoredDevice where
  unknown : Bool := false
  id : Field Text
  hash : Field Text
  name : Field Text
  created : Field ℤ
  client : Field Text := .missing
  clientVersion : Field Text := .missing
deriving DecidableEq

/-- pairing.json as `read_json` finds it. -/
inductive PairingFile where
  | absent
  /-- empty, longer than it may be, or no JSON -/
  | broken
  /-- a value that is taken for false, such as null -/
  | blank
  /-- another value that is no object -/
  | scalar
  | record (unknown : Bool) (schema : Field ℤ) (devices : Field (List (Field StoredDevice)))
deriving DecidableEq

/-- A device with members of the right types, and no others. -/
def StoredDevice.device? (stored : StoredDevice) : Option Pairing.Device :=
  if stored.unknown then none
  else do
    let id ← stored.id.value?
    let hash ← stored.hash.value?
    let name ← stored.name.value?
    let created ← stored.created.value?
    return ⟨id, hash, name, created, Pairing.clientMetadata stored.client stored.clientVersion⟩

/-- `pairing_record()` -/
def pairingRecord (file : PairingFile) : Except Err Pairing.Record :=
  match file with
  | .absent | .blank => .ok Pairing.defaults
  | .broken | .scalar => .error .storageError
  | .record unknown schema devices => do
    require (schema = .value 1 ∧ unknown = false) .storageError
    match (devices.value?).bind (·.mapM fun row => row.value?.bind StoredDevice.device?) with
    | none => throw .storageError
    | some devices => Pairing.checked devices

/-! runtime.json. -/

/-- The members of runtime.json. -/
structure Snapshot where
  schema : Field ℤ
  mode : Field Text
  phase : Field Text
  connected : Field Bool
  enforced : Field Bool
  activeServerId : Field Text := .missing
  desiredServerId : Field Text := .missing
  error : Field Text := .missing
  since : Field ℤ := .missing
deriving DecidableEq

/-- What `probe.runtime_snapshot` finds. A value that is no object and not taken for false has no
members to ask for, which ends the call. -/
inductive RuntimeFile where
  /-- not there, replaced while it is read, no JSON, or a value that is taken for false -/
  | absent
  | scalar
  | array
  | object (snapshot : Snapshot)
deriving DecidableEq

/-- `probe.vpn_sample` -/
structure Sample where
  address : Text
  country : Text
  /-- the number as it is printed -/
  latency : Text
deriving DecidableEq

/-- What a call reads for the public state. -/
structure View where
  pairs : PairingFile := .absent
  runtime : RuntimeFile := .absent
  /-- the tunnel is there -/
  tunnel : Bool := false
  sample : Option Sample := none
  /-- the counters of the tunnel -/
  received : ℕ := 0
  sent : ℕ := 0
  /-- `protocol_facts.installed()` -/
  installed : Option (List Text) := none
  /-- `remote_uplink().publicIpv4Available` -/
  publicIpv4 : Option Bool := none
deriving DecidableEq

structure Status where
  phase : Text
  connected : Bool := false
  enforced : Bool := false
  activeServerId : Option Text := none
  desiredServerId : Option Text
  /-- the interface is the tunnel -/
  interface : Bool := false
  error : Option Text := none
  since : Option ℤ := none
  address : Text := []
  country : Text := []
  latency : Option Text := none
deriving DecidableEq

def runtimePhases : List Text :=
  ["disconnected", "connecting", "connected", "blocked", "error"].map String.toList

/-- `RUNTIME_ERRORS` -/
def runtimeErrors : List Text :=
  ["storage_error", "invalid_state", "server_not_found", "client_rules_unsupported",
    "site_pattern_unsupported", "invalid_interface", "invalid_dns_uid", "runtime_missing",
    "resolve_failed", "country_fetch_failed", "country_data_invalid", "country_data_too_large",
    "dnsmasq_nftset_required", "policy_invalid", "policy_apply_failed", "route_apply_failed",
    "dnsmasq_apply_failed", "tunnel_missing", "tunnel_start_failed", "tunnel_exited"].map
      String.toList

/-- `state.activeServerId || null` -/
def desiredServer (disk : Disk) : Option Text :=
  disk.state.activeServerId.value?.filter fun id => id ≠ []

/-- `fallback_runtime(state)` -/
def fallbackRuntime (disk : Disk) : Status where
  phase := (if (desiredServer disk).isSome then "connecting" else "disconnected").toList
  desiredServerId := desiredServer disk

/-- A snapshot that is looked at: one of this runtime, for the server that is wanted. -/
def Snapshot.Fits (snapshot : Snapshot) (desired : Option Text) : Prop :=
  snapshot.schema = .value 1 ∧ snapshot.mode = .value "runtime".toList ∧
    snapshot.phase.value?.any (· ∈ runtimePhases) = true ∧ snapshot.connected.value?.isSome = true ∧
    snapshot.enforced.value?.isSome = true ∧ snapshot.desiredServerId = .ofOption desired

instance (snapshot : Snapshot) (desired : Option Text) : Decidable (snapshot.Fits desired) :=
  inferInstanceAs (Decidable (_ ∧ _))

/-- `runtime_status(state)` -/
def runtimeStatus (view : View) (disk : Disk) : Except Err Status :=
  match view.runtime with
  | .scalar => .error .storageError
  | .absent | .array => .ok (fallbackRuntime disk)
  | .object snapshot =>
    let desired := desiredServer disk
    if snapshot.Fits desired then
      let claimed := snapshot.connected = .value true
      let connected := claimed ∧ desired.isSome = true ∧ snapshot.activeServerId =
        .ofOption desired ∧
        view.tunnel = true
      let lost := claimed ∧ ¬ connected
      let sample := if connected then view.sample else none
      .ok {
        phase := if lost then "error".toList else snapshot.phase.value?.getD []
        connected := connected
        enforced := !lost && snapshot.enforced = .value true
        activeServerId := if connected then desired else none
        desiredServerId := desired
        interface := connected
        error := if lost then some "tunnel_missing".toList
          else snapshot.error.value?.filter (· ∈ runtimeErrors)
        since := snapshot.since.value?
        address := (sample.map Sample.address).getD []
        country := (sample.map Sample.country).getD []
        latency := sample.map Sample.latency }
    else .ok (fallbackRuntime disk)

/-! The public state. -/

structure ServerRow where
  id : Text
  name : Text
  endpoint : Text
  protocol : Text
  core : Bool
  /-- connected, or saved only -/
  connected : Bool
  received : ℕ
  sent : ℕ
  latency : Option Text
deriving DecidableEq

structure ClientRow where
  id : Text
  name : Text
  deviceType : Text
  serverId : Option Text
  provisioned : Bool
  allowLan : Bool
deriving DecidableEq

/-- What is returned beside the revision, the settings and the rules of the state. -/
structure PublicState where
  servers : List ServerRow
  clients : List ClientRow
  runtime : Status
  installedProtocols : Option (List Text)
  pairedDeviceCount : ℕ
  publicIpv4Available : Option Bool
deriving DecidableEq

def serverRow (view : View) (runtime : Status) (server : Server) : ServerRow :=
  let connected := runtime.connected && runtime.activeServerId = server.id.value?
  { id := server.key
    name := server.name.value?.getD []
    endpoint := server.endpoint.value?.getD []
    protocol := (server.protocol.value?.filter fun t => t ≠ []).getD "hysteria2".toList
    core := server.engine = Model.engineCore
    connected
    received := if connected then view.received else 0
    sent := if connected then view.sent else 0
    latency := if connected then runtime.latency else none }

def clientRow (client : Client) : ClientRow where
  id := client.key
  name := client.name.value?.getD []
  deviceType := client.deviceType.value?.getD []
  serverId := client.serverId.value?
  provisioned := client.inbound
  allowLan := client.allowLan = .value true

/-- `public_state(state)`, of the state that was written. -/
def publicState (view : View) (disk : Disk) : Except Err PublicState := do
  let runtime ← runtimeStatus view disk
  let pairs ← pairingRecord view.pairs
  return {
    servers := disk.servers.map (serverRow view runtime)
    clients := disk.clients.map clientRow
    runtime
    installedProtocols := view.installed
    pairedDeviceCount := pairs.devices.length
    publicIpv4Available := view.publicIpv4 }

/-- The two files can be read for the public state. -/
def View.Readable (view : View) : Prop :=
  view.runtime ≠ .scalar ∧ Succeeds (pairingRecord view.pairs)

/-- The public state depends on nothing that the call writes for whether it can be told. -/
theorem succeeds_publicState {view : View} {disk : Disk} :
    Succeeds (publicState view disk) ↔ view.Readable := by
  have hruntime : Succeeds (runtimeStatus view disk) ↔ view.runtime ≠ .scalar := by
    unfold runtimeStatus
    cases view.runtime with
    | scalar => simp
    | absent | array => simp
    | object snapshot =>
      simp only [ne_eq, reduceCtorEq, not_false_eq_true, iff_true]
      split <;> exact succeeds_ok
  have hpairs : Succeeds (publicState view disk) ↔
      Succeeds (runtimeStatus view disk) ∧ Succeeds (pairingRecord view.pairs) := by
    simp only [publicState, succeeds_bind]
    constructor
    · rintro ⟨runtime, hr, pairs, hp, -⟩
      exact ⟨⟨runtime, hr⟩, pairs, hp⟩
    · rintro ⟨⟨runtime, hr⟩, pairs, hp⟩
      exact ⟨runtime, hr, pairs, hp, succeeds_ok⟩
  rw [hpairs, hruntime, View.Readable]

end Foxhole.Rpc
