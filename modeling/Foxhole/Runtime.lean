import Foxhole.Lib.Command
import Foxhole.Routing

/-! The controller foxhole-runtime: it computes the policy of a state, loads it into the kernel,
and takes it out again. -/
namespace Foxhole.Runtime
open Check Text Address Routing Nft Command

/-- The routing table of marked packets, 201, and that of the tunnel proof, 202. -/
inductive RouteTable where
  | vpn | proof
deriving DecidableEq

inductive DefaultRoute where
  | prohibit
  | dev (name : Text)
deriving DecidableEq

structure Status where
  phase : Text
  connected : Bool
  enforced : Bool
  activeServerId : Option Text
  desiredServerId : Option Text
  error : Option Err
deriving DecidableEq

/-- What the controller writes: table `inet foxhole`, the default routes and the number of
selector rules of each routing table, and the status file. -/
structure Router where
  table : Option Table
  routes : RouteTable → Family → List DefaultRoute
  rules : RouteTable → Family → ℕ
  status : Option Status

/-- After a restart of the machine. -/
def boot : Router := ⟨none, fun _ _ => [], fun _ _ => 0, none⟩

/-- The codes the controller reports by name. -/
def ERRORS : List Err :=
  [.storageError, .invalidState, .serverNotFound, .clientRulesUnsupported,
    .sitePatternUnsupported, .invalidInterface, .invalidDnsUid, .runtimeMissing, .resolveFailed,
    .countryFetchFailed, .countryDataInvalid, .countryDataTooLarge, .dnsmasqNftsetRequired,
    .policyInvalid, .policyApplyFailed, .routeApplyFailed, .dnsmasqApplyFailed, .tunnelMissing,
    .tunnelStartFailed, .tunnelExited, .runtimeStopped]

def errorCode (error : Err) : Err := if error ∈ ERRORS then error else .storageError

/-- `active_server(state)` of runtime-model.uc. -/
def activeServer (state : State) : Option Server :=
  match state.activeServerId with
  | none | some [] => none
  | some id => state.servers.find? fun server => server.id = .value id

def native (state : State) : Bool := (activeServer state).map (·.engine) = some Model.engineCore

inductive IpCommand where
  | ruleDel (table : RouteTable) (family : Family)
  | ruleAdd (table : RouteTable) (family : Family)
  | routeReplace (table : RouteTable) (family : Family) (route : DefaultRoute)
  | routeFlush (table : RouteTable) (family : Family)
deriving DecidableEq

def Router.setRules (r : Router) (table : RouteTable) (family : Family) (n : ℕ) : Router :=
  { r with rules := fun t f => if t = table ∧ f = family then n else r.rules t f }

def Router.setRoutes (r : Router) (table : RouteTable) (family : Family)
    (routes : List DefaultRoute) : Router :=
  { r with routes := fun t f => if t = table ∧ f = family then routes else r.routes t f }

/-- What a command that works does. -/
def IpCommand.apply : IpCommand → Router → Router
  | ruleDel table family, r => r.setRules table family (r.rules table family - 1)
  | ruleAdd table family, r => r.setRules table family (r.rules table family + 1)
  | routeReplace table family route, r => r.setRoutes table family [route]
  | routeFlush table family, r => r.setRoutes table family []

/-- The decoded file of a country. -/
structure CountryData where
  countryCode : Field Text
  ipv4 : Field (List (Field Text))
  ipv6 : Field (List (Field Text))
deriving DecidableEq

/-- What one attempt at a policy meets outside the controller. -/
structure Attempt where
  /-- `foxhole0` is there -/
  tun : Bool
  rpFilter : Bool
  /-- dnsmasq was built with nftset -/
  nftset : Bool
  country : Text → Except Err CountryData
  interfaces : Except Err (List Text)
  dnsUid : Except Err ℤ
  dnsViaTunnel : Bool
  /-- `nft -c -f` -/
  checked : Bool
  /-- `nft -f` -/
  loaded : Bool
  ip : IpCommand → Bool
  dnsHelper : Bool

structure Prefixes where
  v4 : List Text := []
  v6 : List Text := []
deriving DecidableEq

namespace Prefixes

def seen (out : Prefixes) (value : Text) : Prop := value ∈ out.v4 ∨ value ∈ out.v6

instance (out : Prefixes) (value : Text) : Decidable (out.seen value) :=
  inferInstanceAs (Decidable (_ ∨ _))

def count (out : Prefixes) : ℕ := out.v4.length + out.v6.length

def push (out : Prefixes) (value : Text) : Family → Prefixes
  | .v4 => { out with v4 := out.v4 ++ [value] }
  | .v6 => { out with v6 := out.v6 ++ [value] }

end Prefixes

def MAX_PREFIXES : ℕ := 200000

/-- The number of bytes of an address of the family. -/
def familyBytes : Family → ℕ
  | .v4 => 4
  | .v6 => 16

def addPrefix (inet : Inet) (family : Family) (out : Prefixes) (item : Field Text) :
    Except Err Prefixes := do
  let .value item := item | throw .countryDataInvalid
  require ('/' ∈ item) .countryDataInvalid
  let .ok value := normalizeAddress inet item | throw .countryDataInvalid
  let bytes := inet.iptoarr ((value.splitOn '/').headD [])
  require (bytes.map (·.bytes.length) = some (familyBytes family)) .countryDataInvalid
  if out.seen value then return out
  else do
    require (out.count + 1 ≤ MAX_PREFIXES) .countryDataTooLarge
    return out.push value family

def addCountry (inet : Inet) (fetch : Text → Except Err CountryData) (out : Prefixes)
    (item : Country) : Except Err Prefixes :=
  if item.route = .direct then do
    let data ← fetch item.code
    require (data.countryCode = .value item.code) .countryDataInvalid
    let .value ipv4 := data.ipv4 | throw .countryDataInvalid
    let .value ipv6 := data.ipv6 | throw .countryDataInvalid
    let out ← ipv4.foldlM (addPrefix inet .v4) out
    ipv6.foldlM (addPrefix inet .v6) out
  else return out

def countryPrefixes (inet : Inet) (state : State) (fetch : Text → Except Err CountryData) :
    Except Err Prefixes :=
  if state.settings.localRules then state.countries.foldlM (addCountry inet fetch) {}
  else return {}

def effectiveSites (state : State) : List Site :=
  if state.settings.localRules then state.sites else []

structure PolicyFiles where
  nft : Table
  dns : Text
  sites : ℕ

/-- The sites and country prefixes of a policy. An emergency policy has none. -/
def policySites (state : State) (emergency : Bool) : List Site :=
  if emergency then [] else effectiveSites state

def policyCountries (inet : Inet) (state : State) (a : Attempt) (emergency : Bool) :
    Except Err Prefixes :=
  if emergency then return {} else countryPrefixes inet state a.country

/-- The policy of a state, written and checked. -/
def policyFiles (inet : Inet) (state : State) (storage : Bool) (a : Attempt) (emergency : Bool) :
    Except Err PolicyFiles := do
  let sites := policySites state emergency
  require (sites ≠ [] → a.nftset = true) .dnsmasqNftsetRequired
  let countries ← policyCountries inet state a emergency
  let interfaces ← a.interfaces
  let dnsUid ← a.dnsUid
  let nft ← nftConfig inet state
    { interfaces, dnsUid := .value dnsUid, bootstrap := emergency, dnsViaTunnel := a.dnsViaTunnel,
      country4 := countries.v4, country6 := countries.v6 }
  let dns ← dnsmasqConfig sites
  require (storage = true) .storageError
  require (a.checked = true) .policyInvalid
  return { nft, dns, sites := sites.length }

/-- `system([IP, ...])` in the loop that deletes selector rules, for at most `left` rounds. -/
def clearRules (a : Attempt) (table : RouteTable) (family : Family) : ℕ → Command Err Router Unit
  | 0 => throw .routeApplyFailed
  | left + 1 => do
    let r ← get
    if a.ip (.ruleDel table family) = true ∧ 0 < r.rules table family then do
      modify (IpCommand.ruleDel table family).apply
      clearRules a table family left
    else pure ()

def runIp (a : Attempt) (command : IpCommand) : Command Err Router Unit := do
  ensure (a.ip command = true) .routeApplyFailed
  modify command.apply

/-- `apply_routes` with table 201, `proof_routes` with table 202. -/
def replaceRoutes (table : RouteTable) (connected : Bool) (a : Attempt) :
    Command Err Router Unit := do
  let route := if connected then .dev tunName else .prohibit
  clearRules a table .v4 16
  clearRules a table .v6 16
  runIp a (.routeReplace table .v4 route)
  runIp a (.routeReplace table .v6 route)
  runIp a (.ruleAdd table .v4)
  runIp a (.ruleAdd table .v6)

def applyRoutes : Bool → Attempt → Command Err Router Unit := replaceRoutes .vpn

def proofRoutes : Bool → Attempt → Command Err Router Unit := replaceRoutes .proof

def applyPolicy (inet : Inet) (state : State) (connected emergency storage : Bool) (a : Attempt) :
    Command Err Router Unit := do
  ensure (connected = true → a.tun = true) .tunnelMissing
  ensure (connected = true → a.rpFilter = true) .routeApplyFailed
  let policy ← policyFiles inet state storage a emergency
  ensure (a.loaded = true) .policyApplyFailed
  modify fun r => { r with table := some policy.nft }
  applyRoutes connected a
  -- the helper sets up or cleans up by the number of sites
  ensure (a.dnsHelper = true) .dnsmasqApplyFailed

/-- What one call of the controller meets. -/
structure Call where
  /-- the private files can be written -/
  storage : Bool
  /-- the policy the action loads -/
  first : Attempt
  /-- the full policy `prepare` checks without loading it -/
  check : Attempt
  /-- the emergency policy after an error -/
  rescue : Attempt
  /-- the device, the engine and the tools are there -/
  installed : Bool
  /-- `adapter.check()` and the random credentials -/
  coreReady : Except Err Unit
  /-- the endpoint resolves and the Hysteria configuration is made -/
  plan : Except Err Unit
  proof : Bool
  /-- ownership, proof and identities after the policy is set up -/
  fence : Except Err Unit
  binary : Except Err Text
  probe : Bool
  deleted : Bool

def statusRecord (state : State) (phase : String) (connected enforced : Bool)
    (error : Option Err) : Status where
  phase := phase.toList
  connected := connected
  enforced := enforced
  activeServerId := if connected then state.activeServerId else none
  desiredServerId := state.activeServerId
  error := error

def writeStatus (state : State) (c : Call) (phase : String) (connected enforced : Bool)
    (error : Option Err) : Command Err Router Unit := do
  ensure (c.storage = true) .storageError
  modify fun r => { r with status := some (statusRecord state phase connected enforced error) }

def prepareCore (env : Env) (state : State) (server : Server) (c : Call) :
    Command Err Router Unit := do
  Core.server env server
  applyPolicy env.inet state false true c.storage c.first
  ensure (c.storage = true) .storageError
  c.coreReady
  writeStatus state c "connecting" false true none

def prepareHysteria (env : Env) (state : State) (c : Call) : Command Err Router Unit := do
  onlyIf state.settings.killSwitch (applyPolicy env.inet state false true c.storage c.first)
  c.plan
  let _policy ← policyFiles env.inet state c.storage c.check false
  ensure (c.storage = true) .storageError
  writeStatus state c "connecting" false state.settings.killSwitch none

def prepare (env : Env) (state : State) (c : Call) : Command Err Router Unit :=
  match activeServer state with
  | none => throw .serverNotFound
  | some server => do
    ensure (c.installed = true) .runtimeMissing
    if server.engine = Model.engineCore then prepareCore env state server c
    else prepareHysteria env state c

/-- `system([IP, ...])` with its exit status ignored. -/
def tryIp (a : Attempt) (command : IpCommand) : Command Err Router Unit :=
  modify fun r => if a.ip command then command.apply r else r

def flushRoutes (a : Attempt) (table : RouteTable) : Command Err Router Unit := do
  clearRules a table .v4 16
  clearRules a table .v6 16
  tryIp a (.routeFlush table .v4)
  tryIp a (.routeFlush table .v6)

def cleanupPolicy (c : Call) : Command Err Router Unit := do
  modify fun r => if c.deleted then { r with table := none } else r
  flushRoutes c.first .vpn
  flushRoutes c.first .proof

def apply (env : Env) (state : State) (c : Call) (connected : Bool) : Command Err Router Unit := do
  ensure (connected = true → activeServer state ≠ none) .serverNotFound
  let proved := connected && native state
  ensure (proved = true → c.proof = true) .tunnelStartFailed
  applyPolicy env.inet state connected false c.storage c.first
  onlyIf proved c.fence
  writeStatus state c (if connected then "connected" else "blocked") connected true none

def cleanup (state : State) (c : Call) : Command Err Router Unit := do
  cleanupPolicy c
  writeStatus state c "disconnected" false false none

/-- The last status of `down`: an error when a server is still wanted. -/
def writeDown (state : State) (c : Call) (phase : String) (enforced : Bool) (reason : Err) :
    Command Err Router Unit :=
  if state.activeServerId ≠ none ∧ reason ≠ .runtimeStopped then
    writeStatus state c "error" false enforced (some reason)
  else writeStatus state c phase false enforced none

def down (env : Env) (state : State) (c : Call) (reason : Err) : Command Err Router Unit := do
  let reason := if reason ∈ ERRORS then reason else .tunnelExited
  if native state ∧ reason ≠ .runtimeStopped then do
    applyPolicy env.inet state false true c.storage c.first
    writeStatus state c "error" false true (some reason)
  else if state.settings.killSwitch then do
    let previous := (← get).status
    writeStatus state c "blocked" false (previous.any (·.enforced)) none
    applyPolicy env.inet state false true c.storage c.first
    let failure := (previous.bind (·.error)).getD reason
    writeDown state c "blocked" true (if reason = .tunnelStartFailed then failure else reason)
  else do
    cleanupPolicy c
    writeDown state c "disconnected" false reason

inductive Action where
  | prepare | prepareProof | probe | binary
  | apply (connected : Bool)
  | cleanup
  | down (reason : Err)
deriving DecidableEq

def perform (env : Env) (state : State) (c : Call) : Action → Command Err Router Unit
  | .prepare => prepare env state c
  | .prepareProof => proofRoutes true c.first
  | .probe => ensure (c.probe = true) .tunnelStartFailed
  | .binary => do
    let _path ← c.binary
  | .apply connected => apply env state c connected
  | .cleanup => cleanup state c
  | .down reason => down env state c reason

/-- The catch block of the controller: only a core server gets the emergency policy here. -/
def rescue (env : Env) (state : State) (c : Call) (code : Err) : Command Err Router Unit := do
  onlyIf (native state) (applyPolicy env.inet state false true c.storage c.rescue)
  writeStatus state c "error" false false (some code)

/-- One call of the controller: whether it exits with 0, and the router it leaves. -/
def controller (env : Env) (state : State) (c : Call) (action : Action) (r : Router) :
    Bool × Router :=
  match exec (perform env state c action) r with
  | (.ok _, r) => (true, r)
  | (.error e, r) =>
    (false, if action = .probe then r else (exec (rescue env state c (errorCode e)) r).2)

inductive Mode where
  | tunnel | block | off
deriving DecidableEq

def mode (state : State) : Mode :=
  if activeServer state ≠ none then .tunnel
  else if state.settings.killSwitch then .block
  else .off

end Foxhole.Runtime
