import Foxhole.StateWrites

/-! The exported profile of a client: `parse_config` on a decoded object, `config_uri`, and the two
profiles of model.uc and inbound.uc. -/
namespace Foxhole
open Check Text Address

/-- The members of a hysteria configuration. `unknown` says that an object has a member outside its
list; a member that is no object is `invalid`. -/
structure Tls where
  unknown : Bool := false
  sni : Field Text := .missing
  insecure : Field Bool := .missing
  pinSHA256 : Field Text := .missing
deriving DecidableEq

structure Obfs where
  unknown : Bool := false
  /-- `type` -/
  kind : Field Text
  /-- the member that `type` names has other members than `password` -/
  methodUnknown : Bool := false
  /-- `obfs[type].password` -/
  password : Field Text
deriving DecidableEq

structure Congestion where
  unknown : Bool := false
  /-- `type` -/
  kind : Field Text
  bbrProfile : Field Text := .missing
deriving DecidableEq

/-- A rate that is there but null is `some .missing`. -/
structure Bandwidth where
  unknown : Bool := false
  up : Option (Field Text) := none
  down : Option (Field Text) := none
deriving DecidableEq

structure Proxy where
  unknown : Bool := false
  listen : Field Text
  username : Field Text := .missing
  password : Field Text := .missing
  /-- of `socks5` only -/
  disableUDP : Field Bool := .missing
deriving DecidableEq

structure Config where
  unknown : Bool := false
  server : Field Text := .missing
  auth : Field Text := .missing
  tls : Field Tls := .missing
  obfs : Field Obfs := .missing
  bandwidth : Field Bandwidth := .missing
  socks5 : Field Proxy := .missing
  http : Field Proxy := .missing
  congestion : Field Congestion := .missing
  fastOpen : Field Bool := .missing
deriving DecidableEq

namespace Config

/-- `text(value, limit, code)` -/
def text (value : Field Text) (limit : ℕ) : Except Err Text :=
  match value with
  | .value value => do
    require (Core.boundedText limit value) .invalidConfig
    return value
  | _ => throw .invalidConfig

/-- `^[a-zA-Z0-9]([a-zA-Z0-9-]*[a-zA-Z0-9])?$` -/
def dnsLabel : Regex Char :=
  .seq (.cls fun c => isAlnum c || isUpper c)
    (.opt (.seq (.star (.cls fun c => isAlnum c || isUpper c || c = '-'))
      (.cls fun c => isAlnum c || isUpper c)))

/-- `dns(value)` -/
def dns (value : Text) : Bool :=
  value.length ≤ 253 && value ≠ [] &&
    (value.splitOn '.').all fun label =>
      1 ≤ label.length && label.length ≤ 63 && dnsLabel.accepts label

def httpsPort : Text := "443".toList

/-- `^\[([0-9a-fA-F:.]+)\](:([0-9,-]+))?$`, with its host and its ports. -/
def bracketed (value : Text) : Option (Text × Text) :=
  match value with
  | '[' :: rest =>
    let host := rest.takeWhile fun c => isHexAny c || c = ':' || c = '.'
    match rest.dropWhile fun c => isHexAny c || c = ':' || c = '.' with
    | ']' :: tail =>
      if host = [] then none
      else
        match tail with
        | [] => some (host, httpsPort)
        | ':' :: ports =>
          if ports ≠ [] ∧ ∀ c ∈ ports, (isDigit c || c = ',' || c = '-') = true then
            some (host, ports)
          else none
        | _ => none
    | _ => none
  | _ => none

/-- The host and the ports of an endpoint, where neither is checked in full yet. -/
def splitEndpoint (inet : Inet) (value : Text) : Except Err (Text × Text) :=
  match bracketed value with
  | some (host, ports) =>
    match inet.iptoarr host with
    | some bytes =>
      if bytes.bytes.length = 16 then .ok ('[' :: inet.arrtoip bytes ++ [']'], ports)
      else .error .invalidConfig
    | none => .error .invalidConfig
  | none =>
    match value.splitOn ':' with
    | [host] => if dns host then .ok (lc host, httpsPort) else .error .invalidConfig
    | [host, ports] =>
      if dns host then .ok (lc host, if ports = [] then httpsPort else ports)
      else .error .invalidConfig
    | _ => .error .invalidConfig

/-- `^[0-9]+(-[0-9]+)?$`, and the two ports in order. -/
def portRange (range : Text) : Bool :=
  match range.splitOn '-' with
  | [port] => port ≠ [] && port.all isDigit && 1 ≤ decimalValue port && decimalValue port ≤ 65535
  | [start, stop] => start ≠ [] && start.all isDigit && stop ≠ [] && stop.all isDigit &&
      1 ≤ decimalValue start && decimalValue stop ≤ 65535 && decimalValue start ≤ decimalValue stop
  | _ => false

/-- `endpoint(value)` -/
def endpoint (inet : Inet) (value : Field Text) : Except Err Text := do
  let value ← text value 320
  let (host, ports) ← splitEndpoint inet value
  require ((ports.splitOn ',').length ≤ 32) .invalidConfig
  require (∀ range ∈ ports.splitOn ',', portRange range = true) .invalidConfig
  return host ++ ':' :: ports

/-- A null member passes, an object is checked. -/
def checkMember {α : Type} (member : Field α) (check : α → Except Err α) : Except Err (Field α) :=
  match member with
  | .missing => .ok .missing
  | .invalid => .error .unsupportedConfig
  | .value value => .value <$> check value

/-- A null scalar passes, one of the right type is checked. -/
def optionalScalar {α : Type} (member : Field α) (ok : α → Bool) : Except Err Unit :=
  match member with
  | .missing => .ok ()
  | .invalid => .error .invalidConfig
  | .value value => require (ok value = true) .invalidConfig

def checkCongestion (value : Congestion) : Except Err Congestion := do
  require (value.unknown = false) .unsupportedConfig
  require (value.kind = .value "bbr".toList) .unsupportedConfig
  require (value.bbrProfile ∈ [.missing, .value [], .value "conservative".toList,
    .value "standard".toList, .value "aggressive".toList]) .unsupportedConfig
  return value

def checkPin (pin : Field Text) : Except Err (Field Text) :=
  match pin with
  | .missing => .ok .missing
  | .invalid => .error .invalidConfig
  | .value pin => do
    let pin := pin.filter (· ≠ ':')
    require (pin.length = 64 ∧ ∀ c ∈ pin, isHexAny c = true) .invalidConfig
    return .value (lc pin)

def checkTls (value : Tls) : Except Err Tls := do
  require (value.unknown = false) .unsupportedConfig
  optionalScalar value.sni dns
  optionalScalar value.insecure fun _ => true
  let pinSHA256 ← checkPin value.pinSHA256
  return { value with pinSHA256 }

def checkObfs (value : Obfs) : Except Err Obfs := do
  require (value.kind ∈ [.value "salamander".toList, .value "gecko".toList]) .unsupportedConfig
  require (value.unknown = false) .unsupportedConfig
  require (value.methodUnknown = false) .invalidConfig
  let _ ← text value.password 1024
  return value

/-- `^[0-9]+([.][0-9]+)?[ ]*([KMG]?bps)$` -/
def rateShape : Regex Char :=
  .seq (.plus (.cls isDigit)) (.seq (.opt (.seq (.lit ['.']) (.plus (.cls isDigit))))
    (.seq (.star (.cls (· = ' '))) (.seq (.opt (.cls fun c => c = 'K' || c = 'M' || c = 'G'))
      (.lit "bps".toList))))

def checkRate (rate : Option (Field Text)) : Except Err Unit :=
  match rate with
  | none => .ok ()
  | some (.value rate) => require (rateShape.accepts rate = true) .invalidConfig
  | some _ => .error .invalidConfig

def checkBandwidth (value : Bandwidth) : Except Err Bandwidth := do
  require (value.unknown = false) .unsupportedConfig
  checkRate value.up
  checkRate value.down
  return value

/-- `^127[.]0[.]0[.]1:[0-9]+$` -/
def loopbackShape : Regex Char := .seq (.lit "127.0.0.1:".toList) (.plus (.cls isDigit))

def checkProxy (inet : Inet) (value : Proxy) : Except Err Proxy := do
  require (value.unknown = false) .unsupportedConfig
  optionalScalar value.disableUDP fun _ => true
  require (loopbackShape.accepts (value.listen.value?.getD []) = true) .unsupportedConfig
  let _ ← endpoint inet value.listen
  optionalScalar value.username fun name => decide (Core.boundedText 1024 name)
  optionalScalar value.password fun word => decide (Core.boundedText 1024 word)
  return value

/-- `parse_config` from the decoded object on. -/
def check (inet : Inet) (config : Config) : Except Err Config := do
  require (config.unknown = false) .unsupportedConfig
  optionalScalar config.fastOpen fun _ => true
  let congestion ← checkMember config.congestion checkCongestion
  let server ← endpoint inet config.server
  let _ ← text config.auth 1024
  let tls ← checkMember config.tls checkTls
  let obfs ← checkMember config.obfs checkObfs
  let bandwidth ← checkMember config.bandwidth checkBandwidth
  let socks5 ← checkMember config.socks5 (checkProxy inet)
  let http ← checkMember config.http (checkProxy inet)
  return { config with server := .value server, congestion, tls, obfs, bandwidth, socks5, http }

/-- `%02X` -/
def hexByte (c : Char) : Text :=
  ['%', Nat.digitChar (c.toNat / 16 % 16), Nat.digitChar (c.toNat % 16)].map ucChar

def encode (value : Text) : Text :=
  value.flatMap fun c =>
    if isAlnum c || isUpper c || c ∈ ['_', '.', '~', '-'] then [c] else hexByte c

/-- The words of a text member, none where it is null or empty. -/
def parameter (name : Text) (value : Field Text) (print : Text → Text) : List Text :=
  match value with
  | .value value => if value = [] then [] else [name ++ '=' :: print value]
  | _ => []

def query (config : Config) : List Text :=
  (match config.tls with
    | .value tls => parameter "sni".toList tls.sni encode ++
        (if tls.insecure = .value true then ["insecure=1".toList] else []) ++
        parameter "pinSHA256".toList tls.pinSHA256 id
    | _ => []) ++
  match config.obfs with
    | .value obfs => ["obfs=".toList ++ obfs.kind.value?.getD [],
        "obfs-password=".toList ++ encode (obfs.password.value?.getD [])]
    | _ => []

/-- `config_uri(config, name)` -/
def uri (config : Config) (name : Text) : Text :=
  "hysteria2://".toList ++ encode (config.auth.value?.getD []) ++ '@' ::
    config.server.value?.getD [] ++
    '/' :: (if query config = [] then [] else '?' :: ['&'].intercalate (query config)) ++
    '#' :: encode name

end Config

/-- inbound.json, as far as the profiles read it. -/
structure InboundFile where
  base : Base
  /-- `endpointHost`, as it is printed -/
  endpointHost : Text
  /-- `public` -/
  exported : Field Config
  sharedAllowLan : Bool := false
  /-- `firstPort`, as it is printed when it is no integer -/
  firstPortText : Text := []
deriving DecidableEq

/-- The texts behind `parse_config`: the object of a stored configuration, and whether the JSON form
of an object is at most 16384 bytes long. -/
structure Syntax (env : Env) where
  config : Text → Except Err Config
  fits : Config → Bool
  config_parseBody : ∀ t, Succeeds (config t) ↔ Succeeds (env.parseBody t)

structure Profile where
  id : Text
  name : Text
  deviceType : Text
  serverId : Option Text
  provisioned : Bool
  allowLan : Bool
  uri : Text
  inactive : Bool
deriving DecidableEq

def printInt (n : ℤ) : Text := if n < 0 then '-' :: decimal n.natAbs else decimal n.toNat

/-- The files with the allocation members of inbound.json. -/
def Disk.on (disk : Disk) (file : Option InboundFile) : Disk :=
  { disk with base := file.map InboundFile.base }

namespace Inbound

/-- `shared(base) ? 443 : client.port`, printed. -/
def portText (file : InboundFile) (client : Client) : Text :=
  if shared file.base then "443".toList
  else
    match client.port with
    | .value port => printInt port
    | .missing => "null".toList
    | .invalid => file.firstPortText

/-- The configuration that a listener's profile carries. -/
def exportedConfig (file : InboundFile) (client : Client) (exported : Foxhole.Config) :
    Foxhole.Config :=
  { exported with
    server := .value (file.endpointHost ++ ':' :: portText file client)
    auth := .value (client.key ++ ':' :: client.secret.value?.getD []) }

/-- `profile(base, client)` -/
def profile {env : Env} (syn : Syntax env) (file : Option InboundFile) (client : Client) :
    Except Err Profile :=
  match file with
  | none => .error .storageError
  | some file =>
    match file.exported with
    | .value exported => do
      let config := exportedConfig file client exported
      require (syn.fits config = true) .invalidConfig
      let _ ← Foxhole.Config.check env.inet config
      let name := client.name.value?.getD []
      return {
        id := client.key
        name
        deviceType := client.deviceType.value?.getD []
        serverId := none
        provisioned := true
        allowLan := if shared file.base then file.sharedAllowLan else client.allowLan = .value true
        uri := Foxhole.Config.uri config name
        inactive := false }
    | _ => .error .storageError

end Inbound

namespace Model

/-- The configuration of a client without a server. -/
def inactiveConfig : Config where
  server := .value "router.invalid:443".toList
  auth := .value "inactive".toList

/-- `parse_config(raw).config` -/
def parsedConfig {env : Env} (syn : Syntax env) (raw : Field Text) : Except Err Config :=
  match raw with
  | .value raw => do
    require (raw.length ≤ 16384 ∧ trim raw ≠ []) .invalidConfig
    syn.config (trim raw)
  | _ => throw .invalidConfig

/-- The configuration of the server a client is bound to. -/
def boundConfig {env : Env} (syn : Syntax env) (server : Option Server) : Except Err Config :=
  match server with
  | some server => parsedConfig syn server.config
  | none => .ok inactiveConfig

/-- `client_profile(state, client)` -/
def clientProfile {env : Env} (syn : Syntax env) (servers : List Server) (client : Client) :
    Except Err Profile := do
  let server := servers.reverse.find? fun server => .value server.key = client.serverId
  let config ← boundConfig syn server
  let name := client.name.value?.getD []
  return {
    id := client.key
    name
    deviceType := client.deviceType.value?.getD []
    serverId := server.map Server.key
    provisioned := false
    allowLan := false
    uri := config.uri name
    inactive := server.isNone }

end Model

/-- `client_export(state, client)` -/
def clientExport {env : Env} (syn : Syntax env) (file : Option InboundFile) (servers : List Server)
    (client : Client) : Except Err Profile :=
  if client.inbound then Inbound.profile syn file client else Model.clientProfile syn servers client

section
variable {env : Env} {syn : Syntax env} {file : Option InboundFile} {servers : List Server}
  {client client' : Client}

theorem parsedConfig_succeeds {raw : Field Text} :
    Succeeds (Model.parsedConfig syn raw) ↔ Succeeds (Model.parseConfig env raw) := by
  cases raw with
  | value raw => simp [Model.parsedConfig, Model.parseConfig, syn.config_parseBody]
  | missing | invalid => simp [Model.parsedConfig, Model.parseConfig, Succeeds]

theorem profile_succeeds {file : InboundFile} :
    Succeeds (Inbound.profile syn (some file) client) ↔
      ∃ exported, file.exported = .value exported ∧
        syn.fits (Inbound.exportedConfig file client exported) = true ∧
        Succeeds (Config.check env.inet (Inbound.exportedConfig file client exported)) := by
  cases he : file.exported with
  | value exported =>
    simp only [Inbound.profile, he, succeeds_bind, require_eq_ok]
    constructor
    · rintro ⟨-, hf, config, hc, -⟩
      exact ⟨exported, rfl, hf, config, hc⟩
    · rintro ⟨exported', ⟨⟩, hf, config, hc⟩
      exact ⟨(), hf, config, hc, _, rfl⟩
  | missing | invalid => simp [Inbound.profile, he]

theorem clientProfile_succeeds :
    Succeeds (Model.clientProfile syn servers client) ↔
      ∀ server, servers.reverse.find? (fun server => .value server.key = client.serverId) =
        some server →
        Succeeds (Model.parseConfig env server.config) := by
  simp only [Model.clientProfile, succeeds_bind]
  cases servers.reverse.find? fun server => .value server.key = client.serverId with
  | none =>
    simp only [reduceCtorEq, false_implies, implies_true, iff_true]
    exact ⟨_, rfl, _, rfl⟩
  | some server =>
    simp only [Option.some.injEq, forall_eq', ← @parsedConfig_succeeds env syn]
    constructor
    · rintro ⟨config, hc, -⟩
      exact ⟨config, hc⟩
    · rintro ⟨config, hc⟩
      exact ⟨config, hc, _, rfl⟩

/-- Whether a profile can be built depends on the listener, not on its name. -/
theorem clientExport_congr (hi : client'.inbound = client.inbound) (hid : client'.id = client.id)
    (hp : client'.port = client.port) (hs : client'.secret = client.secret)
    (hv : client'.serverId = client.serverId) :
    Succeeds (clientExport syn file servers client') ↔
      Succeeds (clientExport syn file servers client) := by
  have hk : client'.key = client.key := by simp [Client.key, hid]
  unfold clientExport
  rw [hi]
  split
  · cases file with
    | none => exact Iff.rfl
    | some file =>
      have hc : Inbound.exportedConfig file client' = Inbound.exportedConfig file client := by
        funext exported
        simp [Inbound.exportedConfig, Inbound.portText, hk, hp, hs]
      rw [profile_succeeds, profile_succeeds, hc]
  · rw [clientProfile_succeeds, clientProfile_succeeds, hv]

end
end Foxhole
