import Foxhole.ConfigUri
import Foxhole.Lib.Keyed

/-! The profile of a client that connects outwards: `client_profile` in model.uc. -/
namespace Foxhole
open Check Text

/-- The decoder behind `parse_config` for text that is no URI, as JSON or as YAML. A text that
decodes to a core document is a JSON object, and its members are no hysteria members. -/
structure Reader (env : Env) where
  other : Text → Except Err Config
  parseBody : ∀ t, env.parseBody t =
    (fun read => ⟨read.name, read.endpoint⟩) <$> Config.parseInput env.inet other t
  core : ∀ raw doc, env.coreJson raw = some doc → doc.schemaVersion = .value 1 →
    Config.uriBody (trim raw) = none ∧ ∃ config, other (trim raw) = .ok config ∧
      config.unknown = true

namespace Reader
variable {env : Env} {reader : Reader env} {fits : Config → Bool} {state : State}
  {client : Client} {server : Server} {raw : Text}

/-- `parse_config(raw)` -/
def parse (reader : Reader env) (raw : Text) : Except Err Config.Read :=
  Config.parse env.inet reader.other raw

def syn (reader : Reader env) (fits : Config → Bool) : Syntax env where
  config t := Config.Read.config <$> Config.parseInput env.inet reader.other t
  fits := fits
  config_parseBody t := by
    rw [reader.parseBody]
    simp only [Succeeds, map_eq_ok]
    constructor
    · rintro ⟨_, read, hr, -⟩
      exact ⟨_, read, hr, rfl⟩
    · rintro ⟨_, read, hr, -⟩
      exact ⟨_, read, hr, rfl⟩

/-- The profile of a client, and what its URI is read as. -/
def Exports (reader : Reader env) (fits : Config → Bool) (servers : List Server) (client : Client) :
    Prop :=
  ∃ profile, Model.clientProfile (reader.syn fits) servers client = .ok profile ∧
    (∀ server ∈ servers, client.serverId = .value server.key →
      ∃ stored found, reader.parse (server.config.value?.getD []) = .ok stored ∧
        reader.parse profile.uri = .ok found ∧ found.endpoint = stored.endpoint ∧
        found.config.auth = stored.config.auth) ∧
    ((∀ server ∈ servers, client.serverId ≠ .value server.key) →
      profile.uri = Model.inactiveConfig.uri profile.name ∧ profile.inactive = true)

def coreText : Text :=
  ("\x7b\"schema_version\":1,\"outbound\":\x7b\"type\":\"vless\",\"server\":\"a.io\"," ++
    "\"port\":443\x7d\x7d").toList

def coreServer : Server where
  id := .value "server-0123456789ab".toList
  name := .value "Core".toList
  endpoint := .value "a.io:443".toList
  config := .value coreText
  engine := .value "core".toList
  protocol := .value "vless".toList

def homeServer : Server where
  id := .value "server-0123456789ac".toList
  name := .value "Home".toList
  endpoint := .value "example.com:443".toList
  config := .value Config.homeUri

end Reader
end Foxhole
