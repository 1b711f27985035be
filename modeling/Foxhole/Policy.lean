import Foxhole.Address

/-! The owner's policy: settings, countries, devices and sites, as model.uc validates them. -/
namespace Foxhole
open Check Text Address

inductive Route where
  | vpn | direct
deriving DecidableEq

inductive Language where
  | ru | en | ja | de | fr | es | zh | ar
deriving DecidableEq

inductive Scope where
  | all | selected
deriving DecidableEq

inductive Theme where
  | dark | light
deriving DecidableEq

structure Settings where
  language : Language := .ru
  standaloneAccess : Bool := true
  localRules : Bool := false
  localScope : Scope := .all
  clientRules : Bool := false
  killSwitch : Bool := false
  darkStyle : Bool := false
  darkCharts : Bool := true
  plainHeadings : Bool := false
  hideRouterStatus : Bool := false
  theme : Theme := .dark
deriving DecidableEq

/-- The settings object of a request or a stored state. -/
structure RawSettings where
  unknown : Bool := false
  language : Field Language := .missing
  standaloneAccess : Field Bool := .missing
  localRules : Field Bool := .missing
  localScope : Field Scope := .missing
  clientRules : Field Bool := .missing
  killSwitch : Field Bool := .missing
  darkStyle : Field Bool := .missing
  darkCharts : Field Bool := .missing
  plainHeadings : Field Bool := .missing
  hideRouterStatus : Field Bool := .missing
  theme : Field Theme := .missing
deriving DecidableEq

structure Country where
  code : Text
  route : Route
deriving DecidableEq

/-- A country rule is an object, or in old states its bare code. -/
inductive RawCountry where
  | legacy (code : Text)
  | entry (code : Text) (route : Option Route)
deriving DecidableEq

structure Device where
  id : Text
  name : Text
  address : Option Text
  mac : Option Text
  bindMac : Bool
  route : Route
deriving DecidableEq

structure RawDevice where
  id : Text
  route : Option Route
  bindMac : Option Bool
  preventLeak : Field Bool := .missing
  name : Field Text := .missing
  address : Field Text := .missing
  mac : Field Text := .missing
deriving DecidableEq

structure Site where
  id : Text
  pattern : Text
  route : Route
deriving DecidableEq

structure RawSite where
  id : Text
  pattern : Field Text
  route : Option Route
deriving DecidableEq

structure Policy where
  settings : Settings
  countries : List Country
  devices : List Device
  sites : List Site
deriving DecidableEq

/-- The payload of `validate_settings`: a missing list is empty. -/
structure RawPolicy where
  settings : Field RawSettings
  countries : Field (List RawCountry)
  devices : Field (List RawDevice)
  sites : Field (List RawSite)
deriving DecidableEq

/-- What a rule claims for itself: its identifier, and the identity it matches. -/
inductive RuleKey where
  | id (t : Text)
  | identity (t : Text)
deriving DecidableEq

namespace Policy

@[irreducible] def countryCodes : List Text :=
  ("AD AE AF AG AI AL AM AO AQ AR AS AT AU AW AX AZ BA BB BD BE BF BG BH BI BJ BL BM BN BO BQ " ++
    "BR BS BT BV BW BY BZ CA CC CD CF CG CH CI CK CL CM CN CO CR CU CV CW CX CY CZ DE DJ DK DM " ++
    "DO DZ EC EE EG EH ER ES ET FI FJ FK FM FO FR GA GB GD GE GF GG GH GI GL GM GN GP GQ GR GS " ++
    "GT GU GW GY HK HM HN HR HT HU ID IE IL IM IN IO IQ IR IS IT JE JM JO JP KE KG KH KI KM KN " ++
    "KP KR KW KY KZ LA LB LC LI LK LR LS LT LU LV LY MA MC MD ME MF MG MH MK ML MM MN MO MP MQ " ++
    "MR MS MT MU MV MW MX MY MZ NA NC NE NF NG NI NL NO NP NR NU NZ OM PA PE PF PG PH PK PL PM " ++
    "PN PR PS PT PW PY QA RE RO RS RU RW SA SB SC SD SE SG SH SI SJ SK SL SM SN SO SR SS ST SV " ++
    "SX SY SZ TC TD TF TG TH TJ TK TL TM TN TO TR TT TV TW TZ UA UG UM US UY UZ VA VC VE VG VI " ++
    "VN VU WF WS YE YT ZA ZM ZW").toList.splitOn ' '

/-- A setting that is missing takes its default. -/
def pick {α : Type} (field : Field α) (default : α) : Except Err α :=
  match field with
  | .missing => .ok default
  | .value a => .ok a
  | .invalid => .error .invalidSettings

def checkSettings (raw : RawSettings) : Except Err Settings := do
  require (raw.unknown = false) .invalidSettings
  return {
    language := ← pick raw.language .ru
    localScope := ← pick raw.localScope .all
    theme := ← pick raw.theme .dark
    standaloneAccess := ← pick raw.standaloneAccess true
    localRules := ← pick raw.localRules false
    clientRules := ← pick raw.clientRules false
    killSwitch := ← pick raw.killSwitch false
    darkStyle := ← pick raw.darkStyle false
    darkCharts := ← pick raw.darkCharts true
    plainHeadings := ← pick raw.plainHeadings false
    hideRouterStatus := ← pick raw.hideRouterStatus false }

/-- A list member of the payload, at most `limit` long. -/
def listOf {α : Type} (field : Field (List α)) (limit : ℕ) : Except Err (List α) :=
  match field with
  | .missing => .ok []
  | .invalid => .error .invalidSettings
  | .value l => if l.length ≤ limit then .ok l else .error .invalidSettings

def checkCountry (seen : List Text) : RawCountry → Except Err Country
  | .legacy code => do
    require (code ∈ countryCodes ∧ code ∉ seen) .invalidSettings
    return { code, route := .direct }
  | .entry code route => do
    require (code ∈ countryCodes ∧ code ∉ seen) .invalidSettings
    let some route := route | throw .invalidSettings
    return { code, route }

/-- `^(https?:\/\/)` taken off, when it is there. -/
def stripHttp (pattern : Text) : Option Text :=
  if "http://".toList <+: pattern then some (pattern.drop 7)
  else if "https://".toList <+: pattern then some (pattern.drop 8)
  else none

/-- `^\|\|[^|]+\^$` -/
def adblock : Regex Char :=
  .seq (.lit "||".toList) (.seq (.plus (.cls (· != '|'))) (.lit ['^']))

/-- One dot off each end. -/
def stripDots (pattern : Text) : Text :=
  let head := if pattern.head? = some '.' then pattern.tail else pattern
  if head.getLast? = some '.' then head.dropLast else head

/-- `[a-z0-9*?_.-]` -/
def isSiteChar (c : Char) : Bool :=
  isLower c || isDigit c || c = '*' || c = '?' || c = '_' || c = '.' || c = '-'

/-- The shape every stored site pattern has. -/
def SitePattern (pattern : Text) : Prop :=
  pattern.length ≤ 253 ∧ '.' ∈ pattern ∧ (∀ c ∈ pattern, isSiteChar c = true) ∧
  '_' ∉ pattern ∧ ¬ ['.', '.'] <:+: pattern ∧
  (∃ c ∈ pattern, (isLower c || isDigit c) = true) ∧
  ∀ label ∈ pattern.splitOn '.', label ≠ [] ∧ label.length ≤ 63 ∧
    label.head? ≠ some '-' ∧ label.getLast? ≠ some '-'

instance (pattern : Text) : Decidable (SitePattern pattern) := by
  unfold SitePattern; infer_instance

/-- The host of a pattern written as an http URL; only the root path may follow it. -/
def siteHost (pattern : Text) : Except Err Text :=
  match stripHttp pattern with
  | none => .ok pattern
  | some rest => do
    let host := rest.takeWhile (· != '/')
    let path := rest.dropWhile (· != '/')
    require (path = [] ∨ path = ['/'] ∨ path = ['/', '*']) .sitePathUnsupported
    require ('?' ∉ host ∧ '#' ∉ host) .sitePathUnsupported
    return host

def normalizeSite (value : Field Text) : Except Err Text :=
  match value with
  | .missing | .invalid => .error .invalidSite
  | .value value => do
    let pattern ← siteHost (lc (trim value))
    let pattern := if adblock.accepts pattern then (pattern.drop 2).dropLast else pattern
    let pattern := stripDots pattern
    require (SitePattern pattern) .invalidSite
    return pattern

def deviceName (name : Field Text) : Except Err Text :=
  match name with
  | .missing => .ok []
  | .invalid => .error .invalidName
  | .value name => do
    require (name.length ≤ 64 ∧ hasCntrl name = false) .invalidName
    return trim name

def deviceAddress (inet : Inet) (address : Field Text) : Except Err (Option Text) :=
  match address with
  | .missing | .value [] => .ok none
  | .invalid => .error .invalidAddress
  | .value address => some <$> normalizeAddress inet address

/-- The MAC of a bound device: the one given, or the neighbour entry of its address. -/
def deviceMac (inet : Inet) (resolveMac : Text → Option Text) (mac : Field Text)
    (address : Option Text) : Except Err Text :=
  match mac with
  | .value (c :: mac) => normalizeMac (c :: mac)
  | .invalid => .error .invalidMac
  | _ =>
    match (address.bind (hostAddress inet)).bind resolveMac with
    | none | some [] => .error .macNotFound
    | some mac => normalizeMac mac

/-- Only a bound device has a MAC. -/
def boundMac (inet : Inet) (resolveMac : Text → Option Text) (bindMac : Bool) (mac : Field Text)
    (address : Option Text) : Except Err (Option Text) :=
  if bindMac then some <$> deviceMac inet resolveMac mac address else .ok none

end Policy

open Policy

/-- What two devices may not share. -/
def Device.identity (inet : Inet) (device : Device) : Text :=
  if device.bindMac then device.mac.getD []
  else ((device.address.bind (hostAddress inet)).or device.address).getD []

def Device.keys (inet : Inet) (device : Device) : List RuleKey :=
  [.id device.id, .identity (device.identity inet)]

def Site.keys (site : Site) : List RuleKey :=
  [.id site.id, .identity ("site:".toList ++ site.pattern)]

namespace Policy

def checkDevice (inet : Inet) (resolveMac : Text → Option Text) (seen : List RuleKey)
    (item : RawDevice) : Except Err Device := do
  require ((tagged "device".toList 12).accepts item.id = true ∧ .id item.id ∉ seen) .invalidSettings
  let some route := item.route | throw .invalidSettings
  let some bindMac := item.bindMac | throw .invalidSettings
  require (item.preventLeak ≠ .invalid) .invalidSettings
  let name ← deviceName item.name
  let address ← deviceAddress inet item.address
  require (address ≠ none ∨ bindMac = true) .invalidAddress
  let mac ← boundMac inet resolveMac bindMac item.mac address
  let device : Device := { id := item.id, name, address, mac, bindMac, route }
  require (.identity (device.identity inet) ∉ seen) .duplicateRule
  return device

def checkSite (seen : List RuleKey) (item : RawSite) : Except Err Site := do
  require ((tagged "site".toList 12).accepts item.id = true ∧ .id item.id ∉ seen) .invalidSite
  let some route := item.route | throw .invalidSite
  let pattern ← normalizeSite item.pattern
  require (.identity ("site:".toList ++ pattern) ∉ seen) .duplicateRule
  return { id := item.id, pattern, route }

def validateSettings (inet : Inet) (resolveMac : Text → Option Text) (payload : RawPolicy) :
    Except Err Policy := do
  let .value settings := payload.settings | throw .invalidSettings
  let settings ← checkSettings settings
  let countries ← listOf payload.countries 249
  let devices ← listOf payload.devices 512
  let sites ← listOf payload.sites 2048
  let countries ← scan (fun country : Country => [country.code]) checkCountry [] countries
  let devices ← scan (Device.keys inet) (checkDevice inet resolveMac) [] devices
  let sites ← scan Site.keys checkSite (seenAfter (Device.keys inet) [] devices) sites
  return { settings, countries, devices, sites }

end Policy
end Foxhole
