import Foxhole.Lib.Chains
import Foxhole.State
import Mathlib.Data.BitVec

/-! Where a packet goes: the decision of model.uc, and the nftables ruleset and dnsmasq lines
of runtime-model.uc. -/
namespace Foxhole
open Check Text Address

namespace Routing

/-- `^[a-zA-Z0-9]([a-zA-Z0-9-]*[a-zA-Z0-9])?$` -/
def hostLabel : Regex Char :=
  .seq (.cls isAlnum)
    (.alt .eps (.seq (.star (.cls fun c => isAlnum c || c = '-')) (.cls isAlnum)))

def dns (value : Text) : Bool :=
  value.length ≤ 253 &&
    (Regex.plus (.cls fun c => isAlnum c || c = '.' || c = '-')).accepts value &&
    (value.splitOn '.').all fun label => label.length ≤ 63 && hostLabel.accepts label

/-- The builtin `wildcard`: a star stands for any text, a question mark for one character. -/
def wildcard : (pattern host : Text) → Bool
  | [], host => host.isEmpty
  | '*' :: pattern, host => host.tails.any fun rest => wildcard pattern rest
  | '?' :: pattern, _ :: host => wildcard pattern host
  | c :: pattern, d :: host => c = d && wildcard pattern host
  | _ :: _, [] => false

def siteMatches (host : Option Text) (pattern : Text) : Bool :=
  match host with
  | none => false
  | some host =>
    let host := lc (if host.getLast? = some '.' then host.dropLast else host)
    if dns host then
      if pattern.any fun c => c = '*' || c = '?' then wildcard pattern host
      else host = pattern || ('.' :: pattern).isSuffixOf host
    else false

inductive Source where
  | lan | client | router
deriving DecidableEq

structure Flow where
  source : Source
  connected : Bool
  mac : Option Text
  address : Option Text
  host : Option Text
  country : Option Text
deriving DecidableEq

inductive Decision where
  | vpn | direct | block
deriving DecidableEq

/-- The first device rule a flow from the LAN meets. -/
def deviceOf (inet : Inet) (state : State) (flow : Flow) : Option Device :=
  if flow.source = .lan ∧ state.settings.localRules = true then
    state.devices.find? fun item =>
      if item.bindMac then lc (flow.mac.getD []) = item.mac.getD []
      else addressMatches inet (flow.address.getD []) (item.address.getD [])
  else none

/-- Whether the site and country rules apply to a flow that no client sent. -/
def scope (inet : Inet) (state : State) (flow : Flow) : Bool :=
  state.settings.localRules &&
    (state.settings.localScope = .all || (deviceOf inet state flow).isSome)

/-- The decision where the VPN is wanted. -/
def tunnel (state : State) (flow : Flow) : Decision :=
  if !flow.connected && state.settings.killSwitch then .block
  else if flow.connected then .vpn
  else .direct

def clientDecision (state : State) (flow : Flow) : Decision :=
  let country := flow.country.map uc
  let active := state.servers.find? fun s => s.id = .ofOption state.activeServerId
  if !flow.connected && state.settings.clientRules &&
      (active.map (·.engine) = some Model.engineCore) then .block
  else if !flow.connected || !state.settings.clientRules then .direct
  else if state.countries.any fun item => some item.code = country && item.route = .direct then
    .direct
  else .vpn

def policyDecision (inet : Inet) (state : State) (flow : Flow) : Decision :=
  let country := flow.country.map uc
  if flow.source = .client then clientDecision state flow
  else if (deviceOf inet state flow).map (·.route) = some .direct then .direct
  else if scope inet state flow then
    match state.sites.find? fun site => siteMatches flow.host site.pattern with
    | some site => if site.route = .direct then .direct else tunnel state flow
    | none =>
      match state.countries.find? fun item => some item.code = country with
      | some item => if item.route = .direct then .direct else tunnel state flow
      | none => tunnel state flow
  else tunnel state flow

/-- `^\*\.[^*]+$` -/
def starHost : Regex Char := .seq (.lit ['*', '.']) (.plus (.cls (· != '*')))

def dnsmasqLine (item : Site) : Except Err Text := do
  require (¬ ('?' ∈ item.pattern ∨ '*' ∈ item.pattern ∧ starHost.accepts item.pattern = false))
    .sitePatternUnsupported
  let name := if item.route = .vpn then "site_vpn".toList else "site_direct".toList
  return "nftset=/".toList ++ item.pattern ++ "/4#inet#foxhole#".toList ++ name ++
    "4,6#inet#foxhole#".toList ++ name ++ ['6']

def dnsmasqConfig (sites : List Site) : Except Err Text := do
  let lines ← sites.mapM dnsmasqLine
  return ['\n'].intercalate ("# Managed by FoxHole.".toList :: lines) ++ ['\n']

end Routing

inductive Family where
  | v4 | v6
deriving DecidableEq

def IpBytes.family (b : IpBytes) : Family := if b.bytes.length = 4 then .v4 else .v6

/-! Table `inet foxhole`, as nft reads it. -/

namespace Nft
open Routing

/-- A set of addresses of one family: `site_vpn4` is `siteVpn v4`. -/
inductive SetName where
  | bypass (family : Family)
  | countryDirect (family : Family)
  | siteDirect (family : Family)
  | siteVpn (family : Family)
deriving DecidableEq

def SetName.family : SetName → Family
  | bypass f | countryDirect f | siteDirect f | siteVpn f => f

inductive ChainName where
  | markVpn | markDirect | scopedRules | selectedRules | classify
  | prerouting | output | bootstrapDns | guardEgress
deriving DecidableEq

/-- What the rules ask of a packet. -/
inductive Condition where
  | iifname (names : List Text)
  | oifnameNot (name : Text)
  /-- `meta mark & mask != 0` -/
  | markAny (mask : BitVec 32)
  /-- `meta mark & mask == value` -/
  | markIs (mask value : BitVec 32)
  /-- `ip daddr @set`, `ip6 daddr @set` -/
  | daddr (set : SetName)
  | etherSaddr (mac : Text)
  /-- `ip saddr address`, `ip6 saddr address` -/
  | saddr (family : Family) (address : Text)
  | skuid (uid : ℕ)
  /-- `meta l4proto (tcp or udp) th dport 53` -/
  | dport53
deriving DecidableEq

/-- `setMark (keep, bits)` is `meta mark set (meta mark & keep) | bits`. -/
structure Rule where
  conditions : List Condition := []
  setMark : Option (BitVec 32 × BitVec 32) := none
  verdict : Chains.Verdict ChainName := .next
deriving DecidableEq

structure Table where
  elements : SetName → List Text
  chains : ChainName → List Rule

def mark : BitVec 32 := 0x40000000

def directMark : BitVec 32 := 0x20000000

/-- Set by an owned provider lease only. -/
def leaseMark : BitVec 32 := 0x08000000

def tunName : Text := "foxhole0".toList

def bypass4 : List Text :=
  ["0.0.0.0/8", "10.0.0.0/8", "100.64.0.0/10", "127.0.0.0/8", "169.254.0.0/16", "172.16.0.0/12",
    "192.0.0.0/24", "192.0.2.0/24", "192.168.0.0/16", "198.18.0.0/15", "198.51.100.0/24",
    "203.0.113.0/24", "224.0.0.0/4", "240.0.0.0/4"].map String.toList

def bypass6 : List Text :=
  ["::/128", "::1/128", "100::/64", "2001:db8::/32", "fc00::/7", "fe80::/10",
    "ff00::/8"].map String.toList

/-- `^[a-zA-Z0-9_.:-]{1,32}$` -/
def interfaceName : Regex Char :=
  let part := Regex.cls fun c => isAlnum c || c = '_' || c = '.' || c = ':' || c = '-'
  .seq part (.upTo 31 part)

structure Options where
  interfaces : List Text
  dnsUid : Field ℤ
  country4 : List Text := []
  country6 : List Text := []
  bootstrap : Bool := false
  dnsViaTunnel : Bool := true
deriving DecidableEq

/-- The family a device rule is written for. -/
def ruleFamily (inet : Inet) (address : Text) : Family :=
  match inet.iptoarr ((address.splitOn '/').headD []) with
  | some b => b.family
  | none => .v6

def deviceRule (inet : Inet) (item : Device) : Rule where
  conditions := [if item.bindMac then .etherSaddr (item.mac.getD [])
    else .saddr (ruleFamily inet (item.address.getD [])) (item.address.getD [])]
  verdict := .goto (if item.route = .direct then .markDirect else .selectedRules)

def scopedRules : List Rule :=
  [{ conditions := [.daddr (.siteVpn .v4)], verdict := .jump .markVpn },
    { conditions := [.daddr (.siteVpn .v6)], verdict := .jump .markVpn },
    { conditions := [.daddr (.siteDirect .v4)], verdict := .jump .markDirect },
    { conditions := [.daddr (.siteDirect .v6)], verdict := .jump .markDirect },
    { conditions := [.daddr (.countryDirect .v4)], verdict := .jump .markDirect },
    { conditions := [.daddr (.countryDirect .v6)], verdict := .jump .markDirect },
    { verdict := .ret }]

/-- The rules of `classify` that come from the owner's policy. -/
def localRules (inet : Inet) (state : State) : List Rule :=
  if state.settings.localRules then
    state.devices.map (deviceRule inet) ++
      if state.settings.localScope = .all then [{ verdict := .jump .scopedRules }] else []
  else []

def chains (inet : Inet) (state : State) (interfaces : List Text) (dnsUid : ℕ)
    (options : Options) : ChainName → List Rule
  | .markVpn => [{ setMark := some (BitVec.allOnes 32, mark) }, { verdict := .accept }]
  | .markDirect => [{ setMark := some (BitVec.allOnes 32, directMark) }, { verdict := .accept }]
  | .scopedRules => scopedRules
  | .selectedRules => [{ verdict := .jump .scopedRules }, { verdict := .jump .markVpn }]
  | .classify =>
    [{ conditions := [.markAny leaseMark], setMark := some (0xb7ffffff, directMark),
        verdict := .accept },
      { conditions := [.daddr (.bypass .v4)], verdict := .accept },
      { conditions := [.daddr (.bypass .v6)], verdict := .accept }] ++
    (localRules inet state ++ [{ verdict := .jump .markVpn }])
  | .prerouting => [{ conditions := [.iifname interfaces], verdict := .jump .classify }]
  | .output =>
    if options.bootstrap = false ∧ options.dnsViaTunnel = true then
      [{ conditions := [.skuid dnsUid, .dport53], verdict := .jump .markVpn }]
    else []
  | .bootstrapDns =>
    if options.bootstrap then
      [{ conditions := [.iifname interfaces, .dport53], verdict := .drop }]
    else []
  | .guardEgress =>
    (if options.bootstrap then
      [{ conditions := [.markIs 0x50000000 0x40000000], verdict := .drop }] else []) ++
    [{ conditions := [.markAny mark, .oifnameNot tunName], verdict := .drop }]

def elements (options : Options) : SetName → List Text
  | .bypass .v4 => bypass4
  | .bypass .v6 => bypass6
  | .countryDirect .v4 => options.country4.eraseDups
  | .countryDirect .v6 => options.country6.eraseDups
  | .siteDirect _ | .siteVpn _ => []

def nftConfig (inet : Inet) (state : State) (options : Options) : Except Err Table := do
  let interfaces := options.interfaces.eraseDups
  require (interfaces ≠ []) .invalidInterface
  let .value dnsUid := options.dnsUid | throw .invalidDnsUid
  require (1 ≤ dnsUid ∧ dnsUid ≤ 65535) .invalidDnsUid
  require (∀ name ∈ interfaces, interfaceName.accepts name = true) .invalidInterface
  return ⟨elements options, chains inet state interfaces dnsUid.toNat options⟩

/-- What the rules read of a packet. `mac` is the source address of the frame, in the lower-case
form model.uc keeps. -/
structure Packet where
  iif : Text
  oif : Text
  mark : BitVec 32
  mac : Text
  source : IpBytes
  destination : IpBytes
  uid : Option ℕ
  toDns : Bool
  same_family : source.family = destination.family
deriving DecidableEq

/-- The addresses dnsmasq has put into the sets while it ran. -/
abbrev Learned := SetName → IpBytes → Bool

/-- Whether an address lies in a written range. -/
def inRange (inet : Inet) (b : IpBytes) (range : Text) : Bool :=
  match addressData inet range with
  | some info => b.width = info.bytes.width &&
      maskBytes info.prefixLen b = maskBytes info.prefixLen info.bytes
  | none => false

def Table.member (inet : Inet) (learned : Learned) (table : Table) (set : SetName)
    (b : IpBytes) : Bool :=
  (table.elements set).any (inRange inet b) || learned set b

def Condition.holds (inet : Inet) (member : SetName → IpBytes → Bool) (p : Packet) :
    Condition → Bool
  | iifname names => p.iif ∈ names
  | oifnameNot name => p.oif ≠ name
  | markAny mask => p.mark &&& mask ≠ 0
  | markIs mask value => p.mark &&& mask = value
  | daddr set => p.destination.family = set.family && member set p.destination
  | etherSaddr mac => p.mac = lc mac
  | saddr family address => p.source.family = family && inRange inet p.source address
  | skuid uid => p.uid = some uid
  | dport53 => p.toDns

def Rule.compile (inet : Inet) (member : SetName → IpBytes → Bool) (rule : Rule) :
    Chains.Rule ChainName Packet where
  applies p := rule.conditions.all (Condition.holds inet member p)
  update p := match rule.setMark with
    | some (keep, bits) => { p with mark := p.mark &&& keep ||| bits }
    | none => p
  verdict := rule.verdict

/-- A chain of the table with the sixteen nested jumps the kernel allows. -/
def Table.run (inet : Inet) (learned : Learned) (table : Table) (chain : ChainName) (p : Packet) :
    Option (Chains.Outcome Packet) :=
  Chains.run (fun c => (table.chains c).map (Rule.compile inet (table.member inet learned))) 16
    chain p

/-- What a base chain lets through; its policy is accept. -/
def Table.passes (inet : Inet) (learned : Learned) (table : Table) (chain : ChainName)
    (p : Packet) : Option Packet :=
  match table.run inet learned chain p with
  | some (.accepted q) | some (.returned q) => some q
  | _ => none

end Nft
end Foxhole
