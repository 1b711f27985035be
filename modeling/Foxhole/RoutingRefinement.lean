import Foxhole.Routing
import Foxhole.StateInvariant
import Mathlib.Data.List.Find

/-! Where the ruleset sends a packet, and when that is what the decision of model.uc says. -/
namespace Foxhole
open Check Text Address Routing

variable {inet : Inet} {a : Text} {n x y : ℕ}

namespace Address

theorem maskByte_eq_and (hn : n ≠ 0) (hx : x < 256) : maskByte n x =
    x &&& (if min n 8 = 8 then 0xff else (0xff <<< (8 - min n 8)) &&& 0xff) := by
  by_cases h8 : n < 8
  · have hmin : min n 8 = n := by omega
    simp only [maskByte, hn, h8, hmin, if_true, if_false]
    rw [if_neg (by omega)]
  · have hmin : min n 8 = 8 := by omega
    rw [maskByte_of_le (by omega), if_pos hmin]
    exact (Nat.and_two_pow_sub_one_of_lt_two_pow (n := 8) (by omega)).symm

/-- Comparing bit by bit is comparing the masked bytes. -/
theorem sameBits_iff {xs ys : List ℕ} (hl : xs.length = ys.length) (hx : ∀ b ∈ xs, b < 256)
    (hy : ∀ b ∈ ys, b < 256) : sameBits n xs ys = true ↔
      (xs.mapIdx fun i b => maskByte (n - i * 8) b) = ys.mapIdx fun i b =>
      maskByte (n - i * 8) b := by
  induction xs generalizing n ys with
  | nil =>
    cases ys with
    | nil => simp [sameBits]
    | cons y ys => cases hl
  | cons x xs ih =>
    cases ys with
    | nil => cases hl
    | cons y ys =>
      have hrec := ih (n := n - 8) (Nat.succ.inj hl) (fun b hb => hx b (List.mem_cons_of_mem _ hb))
        fun b hb => hy b (List.mem_cons_of_mem _ hb)
      have hshift : ∀ i, n - (i + 1) * 8 = n - 8 - i * 8 := by intro i; omega
      simp only [List.mapIdx_cons, Nat.zero_mul, Nat.sub_zero, hshift, List.cons.injEq, ← hrec]
      by_cases hn : n = 0
      · have hz : sameBits 0 xs ys = true := by cases xs <;> cases ys <;> simp [sameBits]
        simp [sameBits, hn, hz, maskByte]
      · have htake : n - min n 8 = n - 8 := by omega
        rw [maskByte_eq_and hn (hx x List.mem_cons_self), maskByte_eq_and hn
          (hy y List.mem_cons_self)]
        simp [sameBits, hn, htake]

end Address

open Nft

theorem IpBytes.width_eq_iff {b c : IpBytes} : b.width = c.width ↔
    b.bytes.length = c.bytes.length := by
  unfold IpBytes.width
  omega

/-- For a single address, `address_matches` is what nft does with the range. -/
theorem addressMatches_eq_inRange {value rule : Text} {info : Info}
    (hv : addressData inet value = some info) (hh : info.IsHost) :
    addressMatches inet value rule = inRange inet info.bytes rule := by
  unfold addressMatches inRange
  rw [hv]
  cases hr : addressData inet rule with
  | none => rfl
  | some target =>
    by_cases hw : info.bytes.width = target.bytes.width
    · have hle : target.prefixLen ≤ info.prefixLen := by
        rw [hh, hw]
        exact target.prefix_le
      have hbits := sameBits_iff (n := target.prefixLen) (IpBytes.width_eq_iff.1 hw)
        info.bytes.lt target.bytes.lt
      have hmask : maskBytes target.prefixLen info.bytes =
          maskBytes target.prefixLen target.bytes ↔
          sameBits target.prefixLen info.bytes.bytes target.bytes.bytes = true := by
        rw [hbits, IpBytes.ext_iff]
        rfl
      simp [hw, hle, hmask]
    · simp [hw]

/-- A printed address reads back as that single address. -/
theorem addressData_arrtoip (b : IpBytes) : ∃ info,
    addressData inet (inet.arrtoip b) = some info ∧ info.IsHost ∧ info.bytes = b := by
  let info : Info := ⟨b, b.width, false, le_rfl, fun _ => rfl⟩
  have hc : canonicalAddress inet info = inet.arrtoip b := by
    simp [canonicalAddress, info, maskBytes_width_self]
  refine ⟨info.masked, hc ▸ addressData_canonicalAddress info, Info.masked_isHost.2 rfl, ?_⟩
  exact Info.masked_of_isHost rfl

theorem canonicalAddress_head (info : Info) :
    ((canonicalAddress inet info).splitOn '/').headD [] =
      inet.arrtoip (maskBytes info.prefixLen info.bytes) := by
  have hip := inet.arrtoip_plain (maskBytes info.prefixLen info.bytes)
  unfold canonicalAddress
  by_cases he : info.explicit
  · simp only [he, if_true]
    rw [List.splitOn_eq_splitOnP, List.splitOnP_append_cons_of_forall_mem
      (fun c hc => by simpa using (hip c hc).1) '/' (by simp)]
    rfl
  · simp only [he, Bool.false_eq_true, if_false, splitOn_slash fun c hc => (hip c hc).1]
    rfl

/-- A stored address is written for the family it belongs to. -/
theorem ruleFamily_of_inRange {b : IpBytes} (ha : normalizeAddress inet a = .ok a)
    (hr : inRange inet b a = true) : b.family = ruleFamily inet a := by
  obtain ⟨info, -, -, rfl⟩ := normalizeAddress_eq_ok.1 ha
  unfold inRange at hr
  rw [addressData_canonicalAddress] at hr
  simp only [Bool.and_eq_true, decide_eq_true_eq, IpBytes.width_eq_iff] at hr
  unfold ruleFamily
  rw [canonicalAddress_head, inet.iptoarr_arrtoip]
  simp only [IpBytes.family, hr.1]
  rfl

namespace Nft
open Chains

variable {state : State} {flow : Flow} {options : Options} {table : Table} {learned : Learned}
  {member : SetName → IpBytes → Bool} {p q : Packet} {device : Device}

/-- The flow of model.uc that a packet of the LAN belongs to. -/
structure Describes (inet : Inet) (flow : Flow) (p : Packet) : Prop where
  source : flow.source = .lan
  mac : lc (flow.mac.getD []) = p.mac
  address : ∃ info, addressData inet (flow.address.getD []) = some info ∧ info.IsHost ∧
    info.bytes = p.source

/-- A device rule of the table applies to the packets that its device in the policy matches. -/
theorem deviceRule_applies (hd : device.Ok inet) (hp : Describes inet flow p) :
    ((deviceRule inet device).compile inet member).applies p =
      if device.bindMac then decide (lc (flow.mac.getD []) = device.mac.getD [])
      else addressMatches inet (flow.address.getD []) (device.address.getD []) := by
  cases hb : device.bindMac with
  | true =>
    obtain ⟨m, hm⟩ := Option.ne_none_iff_exists'.1 (hd.bound hb)
    have hlc : lc m = m := (normalizeMac_eq_ok.1 (hd.mac m hm)).2.2.2
    simp [Rule.compile, deviceRule, Condition.holds, hb, hm, hlc, hp.mac]
  | false =>
    obtain ⟨a, ha⟩ := Option.ne_none_iff_exists'.1 (hd.unbound hb).2
    obtain ⟨info, hi, hh, hs⟩ := hp.address
    have hfam : inRange inet p.source a = true → p.source.family = ruleFamily inet a :=
      ruleFamily_of_inRange (hd.address a ha)
    have hm : addressMatches inet (flow.address.getD []) a = inRange inet p.source a :=
      hs ▸ addressMatches_eq_inRange hi hh
    simp only [Rule.compile, deviceRule, Condition.holds, hb, ha, hm, Bool.false_eq_true, if_false,
      Option.getD_some, List.all_cons, List.all_nil, Bool.and_true]
    cases hr : inRange inet p.source a with
    | true => simp [hfam hr]
    | false => simp

/-- The precedence of the traffic rules: direct devices, then in scope site-VPN before site-direct
before country-direct, then the VPN. -/
def route (device : Option Route) (scope siteVpn siteDirect countryDirect : Bool) : Route :=
  if device = some .direct then .direct
  else if scope && !siteVpn && (siteDirect || countryDirect) then .direct
  else .vpn

def routeMark : Route → BitVec 32
  | .vpn => mark
  | .direct => directMark

def Packet.withMark (p : Packet) (bits : BitVec 32) : Packet := { p with mark := p.mark ||| bits }

/-- The chains of the table as the kernel runs them. -/
def compiled (inet : Inet) (state : State) (member : SetName → IpBytes → Bool)
    (interfaces : List Text) (uid : ℕ) (options : Options) (chain : ChainName) :
    List (Chains.Rule ChainName Packet) :=
  (chains inet state interfaces uid options chain).map (Rule.compile inet member)

variable {interfaces : List Text} {uid depth : ℕ}
  {call : ChainName → Packet → Option (Outcome Packet)}
  {rules : List (Chains.Rule ChainName Packet)} {target : ChainName}

theorem run_markVpn : run (compiled inet state member interfaces uid options) (depth + 1)
    .markVpn p = some (.accepted (p.withMark mark)) := by
  rw [run_succ]
  simp only [compiled, chains, runRules, Rule.compile, List.map_cons, List.map_nil, List.all_nil,
    if_true, BitVec.and_allOnes, Packet.withMark]

theorem run_markDirect : run (compiled inet state member interfaces uid options) (depth + 1)
    .markDirect p = some (.accepted (p.withMark directMark)) := by
  rw [run_succ]
  simp only [compiled, chains, runRules, Rule.compile, List.map_cons, List.map_nil, List.all_nil,
    if_true, BitVec.and_allOnes, Packet.withMark]

/-- The two rules for a pair of sets ask about the set of the packet's family. -/
theorem runRules_daddr (set : Family → SetName) (hset : ∀ f, (set f).family = f)
    (hc : call target p = some (.accepted q)) :
    runRules call
      (Rule.compile inet member { conditions := [.daddr (set .v4)], verdict := .jump target } ::
        Rule.compile inet member { conditions := [.daddr (set .v6)], verdict := .jump target } ::
        rules) p =
      if member (set p.destination.family) p.destination then some (.accepted q)
      else runRules call rules p := by
  cases hf : p.destination.family <;> cases hm : member (set p.destination.family) p.destination
  all_goals rw [hf] at hm
  all_goals simp [runRules, Rule.compile, Condition.holds, hset, hf, hm, hc]

/-- The site and country rules: site-VPN, site-direct, country-direct, and back. -/
theorem run_scopedRules : run (compiled inet state member interfaces uid options) (depth + 2)
    .scopedRules p =
      if member (.siteVpn p.destination.family) p.destination then
        some (.accepted (p.withMark mark))
      else if member (.siteDirect p.destination.family) p.destination ||
          member (.countryDirect p.destination.family) p.destination then
        some (.accepted (p.withMark directMark))
      else some (.returned p) := by
  rw [run_succ]
  have hrules : compiled inet state member interfaces uid options .scopedRules =
      scopedRules.map (Rule.compile inet member) := rfl
  rw [hrules]
  simp only [scopedRules, List.map_cons, List.map_nil]
  rw [runRules_daddr .siteVpn (fun _ => rfl) run_markVpn,
    runRules_daddr .siteDirect (fun _ => rfl) run_markDirect,
    runRules_daddr .countryDirect (fun _ => rfl) run_markDirect,
    runRules_ret rfl rfl]
  by_cases hs : member (.siteDirect p.destination.family) p.destination = true
  · simp [hs]
  · simp [hs, Rule.compile]

/-- Site and country rules, and the VPN for what they leave: the whole of `selected_rules`, and
the end of `classify` when the scope is all. -/
theorem runRules_scoped_vpn :
    runRules (run (compiled inet state member interfaces uid options) (depth + 2))
      [Rule.compile inet member { verdict := .jump .scopedRules },
        Rule.compile inet member { verdict := .jump .markVpn }] p =
      some (.accepted (p.withMark (routeMark (route none true
        (member (.siteVpn p.destination.family) p.destination)
        (member (.siteDirect p.destination.family) p.destination)
        (member (.countryDirect p.destination.family) p.destination))))) := by
  have hscoped : run (compiled inet state member interfaces uid options) (depth + 2)
      .scopedRules p = _ := run_scopedRules
  cases hv : member (.siteVpn p.destination.family) p.destination with
  | true =>
    rw [hv, if_pos rfl] at hscoped
    rw [runRules_jump_accepted rfl rfl hscoped]
    simp [route, routeMark]
  | false =>
    rw [hv, if_neg Bool.false_ne_true] at hscoped
    cases hsc : member (.siteDirect p.destination.family) p.destination ||
        member (.countryDirect p.destination.family) p.destination with
    | true =>
      rw [hsc, if_pos rfl] at hscoped
      rw [runRules_jump_accepted rfl rfl hscoped]
      simp [route, routeMark, hsc]
    | false =>
      rw [hsc, if_neg Bool.false_ne_true] at hscoped
      rw [runRules_jump_returned rfl rfl hscoped, runRules_jump_accepted rfl rfl run_markVpn]
      simp [route, routeMark, hsc, Rule.compile]

theorem find_deviceRule (hd : ∀ device ∈ state.devices, device.Ok inet)
    (hp : Describes inet flow p) (hl : state.settings.localRules = true) :
    state.devices.find? (fun device => ((deviceRule inet device).compile inet member).applies p) =
      deviceOf inet state flow := by
  rw [deviceOf, if_pos ⟨hp.source, hl⟩]
  refine List.find?_congr fun device hm => ?_
  exact deviceRule_applies (hd device hm) hp

/-- Without the lease bit and outside the reserved networks the owner's rules are next. -/
theorem run_classify_rest (hlease : p.mark &&& leaseMark = 0)
    (hbypass : member (.bypass p.destination.family) p.destination = false) :
    run (compiled inet state member interfaces uid options) (depth + 4) .classify p =
      runRules (run (compiled inet state member interfaces uid options) (depth + 3))
        ((localRules inet state).map (Rule.compile inet member) ++
          [Rule.compile inet member { verdict := .jump .markVpn }]) p := by
  have hskip : ∀ f, (Rule.compile inet member
      { conditions := [.daddr (.bypass f)], verdict := .accept }).applies p = false := by
    intro f
    by_cases hf : p.destination.family = f
    · simp [Rule.compile, Condition.holds, ← hf, hbypass]
    · simp [Rule.compile, Condition.holds, SetName.family, hf]
  rw [run_succ]
  simp only [compiled, chains, List.map_append, List.map_cons, List.map_nil, List.cons_append,
    List.nil_append]
  rw [runRules_skip (by simp [Rule.compile, Condition.holds, hlease]), runRules_skip (hskip .v4),
    runRules_skip (hskip .v6)]

/-- A LAN packet outside the reserved networks gets the mark of its route. -/
theorem run_classify (hd : ∀ device ∈ state.devices, device.Ok inet)
    (hp : Describes inet flow p) (hlease : p.mark &&& leaseMark = 0)
    (hbypass : member (.bypass p.destination.family) p.destination = false) :
    run (compiled inet state member interfaces uid options) (depth + 4) .classify p =
      some (.accepted (p.withMark (routeMark (route ((deviceOf inet state flow).map (·.route))
        (scope inet state flow) (member (.siteVpn p.destination.family) p.destination)
        (member (.siteDirect p.destination.family) p.destination)
        (member (.countryDirect p.destination.family) p.destination))))) := by
  rw [run_classify_rest hlease hbypass]
  cases hl : state.settings.localRules with
  | false =>
    have hdev : deviceOf inet state flow = none := by simp [deviceOf, hl]
    simp only [localRules, hl, Bool.false_eq_true, if_false, List.map_nil, List.nil_append]
    rw [runRules_jump_accepted rfl rfl run_markVpn]
    simp [hdev, scope, hl, route, routeMark, Rule.compile]
  | true =>
    simp only [localRules, hl, if_true, List.map_append, List.map_map, List.append_assoc]
    rw [runRules_gotos state.devices (Rule.compile inet member ∘ deviceRule inet)
      (fun item => if item.route = .direct then .markDirect else .selectedRules)
      (fun _ _ => rfl) (fun _ _ => rfl)]
    have hfind := @find_deviceRule _ _ _ member _ hd hp hl
    simp only [Function.comp_apply, hfind]
    cases hdev : deviceOf inet state flow with
    | some device =>
      cases hr : device.route with
      | direct =>
        simp only [hr, if_true]
        rw [run_markDirect]
        simp [route, routeMark, hr]
      | vpn =>
        simp only [hr, reduceCtorEq, if_false]
        rw [run_succ]
        refine runRules_scoped_vpn.trans ?_
        simp [route, routeMark, hr, scope, hl, hdev]
    | none =>
      cases hs : state.settings.localScope with
      | all =>
        simp only [if_true, List.map_cons, List.map_nil, List.cons_append, List.nil_append]
        refine runRules_scoped_vpn.trans ?_
        simp [route, routeMark, scope, hl, hs]
      | selected =>
        simp only [reduceCtorEq, if_false, List.map_nil, List.nil_append]
        rw [runRules_jump_accepted rfl rfl run_markVpn]
        simp [route, routeMark, scope, hl, hs, hdev, Rule.compile]

theorem nftConfig_eq_ok : nftConfig inet state options = .ok table ↔
    ∃ uid : ℤ, options.interfaces.eraseDups ≠ [] ∧ options.dnsUid = .value uid ∧
      (1 ≤ uid ∧ uid ≤ 65535) ∧
      (∀ name ∈ options.interfaces.eraseDups, interfaceName.accepts name = true) ∧
      ⟨elements options, chains inet state options.interfaces.eraseDups uid.toNat options⟩ =
        table := by
  unfold nftConfig
  cases options.dnsUid with
  | missing => simp [throw, throwThe, MonadExceptOf.throw, bind_eq_ok]
  | invalid => simp [throw, throwThe, MonadExceptOf.throw, bind_eq_ok]
  | value uid => simp [bind_eq_ok, require_eq_ok]

/-- What the prerouting hook does with a LAN packet. -/
theorem passes_prerouting (hn : nftConfig inet state options = .ok table)
    (hi : p.iif ∈ options.interfaces) (hd : ∀ device ∈ state.devices, device.Ok inet)
    (hp : Describes inet flow p) (hlease : p.mark &&& leaseMark = 0)
    (hbypass : table.member inet learned (.bypass p.destination.family) p.destination = false) :
    table.passes inet learned .prerouting p =
      some (p.withMark (routeMark (route ((deviceOf inet state flow).map (·.route))
        (scope inet state flow)
        (table.member inet learned (.siteVpn p.destination.family) p.destination)
        (table.member inet learned (.siteDirect p.destination.family) p.destination)
        (table.member inet learned (.countryDirect p.destination.family) p.destination)))) := by
  obtain ⟨uid, -, -, -, -, htable⟩ := nftConfig_eq_ok.1 hn
  have hchains : (fun c => (table.chains c).map (Rule.compile inet (table.member inet learned))) =
      compiled inet state (table.member inet learned) options.interfaces.eraseDups uid.toNat
        options := by
    rw [← htable]
    rfl
  have hrun : run (compiled inet state (table.member inet learned) options.interfaces.eraseDups
      uid.toNat options) 15 .classify p = _ := run_classify hd hp hlease hbypass
  have hiif : (Rule.compile inet (table.member inet learned)
      { conditions := [.iifname options.interfaces.eraseDups],
        verdict := .jump .classify }).applies p = true := by
    simp [Rule.compile, Condition.holds, hi]
  unfold Table.passes Table.run
  rw [hchains, run_succ]
  simp only [compiled, chains, List.map_cons, List.map_nil]
  rw [runRules_jump_accepted hiif rfl hrun]

/-- The route by the order of the lists, as the decision reads them. -/
def listed (inet : Inet) (state : State) (flow : Flow) : Route :=
  if (deviceOf inet state flow).map (·.route) = some .direct then .direct
  else if scope inet state flow then
    match state.sites.find? fun site => siteMatches flow.host site.pattern with
    | some site => site.route
    | none =>
      match state.countries.find? fun item => some item.code = flow.country.map uc with
      | some item => item.route
      | none => .vpn
  else .vpn

theorem policyDecision_listed (h : flow.source = .lan) : policyDecision inet state flow =
    match listed inet state flow with
    | .direct => .direct
    | .vpn => tunnel state flow := by
  have hs : flow.source ≠ .client := by simp [h]
  simp only [policyDecision, hs, if_false, listed]
  split
  · rfl
  · split
    · cases state.sites.find? fun site => siteMatches flow.host site.pattern with
      | some site => cases hr : site.route <;> simp [hr]
      | none =>
        cases state.countries.find? fun item => some item.code = flow.country.map uc with
        | some item => cases hr : item.route <;> simp [hr]
        | none => rfl
    · rfl

/-- What the sets hold of the destination, as the sites and countries of the policy say. -/
structure InSets (member : SetName → IpBytes → Bool) (state : State) (flow : Flow)
    (p : Packet) : Prop where
  siteVpn : member (.siteVpn p.destination.family) p.destination = true ↔
    ∃ site ∈ state.sites, site.route = .vpn ∧ siteMatches flow.host site.pattern = true
  siteDirect : member (.siteDirect p.destination.family) p.destination = true ↔
    ∃ site ∈ state.sites, site.route = .direct ∧ siteMatches flow.host site.pattern = true
  countryDirect : member (.countryDirect p.destination.family) p.destination = true ↔
    ∃ item ∈ state.countries, item.route = .direct ∧ some item.code = flow.country.map uc

/-- A direct site stands first in the list, and a site-VPN rule matches too. -/
def Shadowed (inet : Inet) (state : State) (flow : Flow) : Prop :=
  scope inet state flow = true ∧ (deviceOf inet state flow).map (·.route) ≠ some .direct ∧
  (state.sites.find? fun site => siteMatches flow.host site.pattern).map (·.route) =
    some .direct ∧
  ∃ site ∈ state.sites, site.route = .vpn ∧ siteMatches flow.host site.pattern = true

/-- Two stored countries with one code are the same rule. -/
theorem country_unique (hs : state.toPolicy.Ok inet) {c d : Country} (hc : c ∈ state.countries)
    (hd : d ∈ state.countries) (h : c.code = d.code) : c = d :=
  hs.countries.eq_of_mem hc hd (List.mem_singleton_self _) (h ▸ List.mem_singleton_self _)

/-- Since no code stands twice, the first country rule for a code is the only one. -/
theorem listed_countries (hs : state.toPolicy.Ok inet) (hin : InSets member state flow p) :
    (match state.countries.find? fun item => some item.code = flow.country.map uc with
      | some item => item.route
      | none => Route.vpn) =
      if member (.countryDirect p.destination.family) p.destination then .direct else .vpn := by
  cases hc : state.countries.find? fun item => some item.code = flow.country.map uc with
  | some item =>
    have hm := List.mem_of_find?_eq_some hc
    have hcode : some item.code = flow.country.map uc := by simpa using List.find?_some hc
    cases hr : item.route with
    | direct =>
      rw [hin.countryDirect.2 ⟨item, hm, hr, hcode⟩]
      exact hr
    | vpn =>
      have hno : member (.countryDirect p.destination.family) p.destination = false := by
        rw [← Bool.not_eq_true, hin.countryDirect]
        rintro ⟨item', hm', hr', hcode'⟩
        have heq := country_unique hs hm hm' (Option.some.inj (hcode.trans hcode'.symm))
        rw [heq, hr'] at hr
        cases hr
      rw [hno]
      exact hr
  | none =>
    have hno : member (.countryDirect p.destination.family) p.destination = false := by
      rw [← Bool.not_eq_true, hin.countryDirect]
      rintro ⟨item, hm, -, hcode⟩
      have := List.find?_eq_none.1 hc item hm
      simp [hcode] at this
    rw [hno]
    rfl

/-- The order of the lists and the order of the chains part at the shadowed flows only. -/
theorem listed_eq_route_iff (hs : state.toPolicy.Ok inet) (hin : InSets member state flow p) :
    listed inet state flow = route ((deviceOf inet state flow).map (·.route))
        (scope inet state flow) (member (.siteVpn p.destination.family) p.destination)
        (member (.siteDirect p.destination.family) p.destination)
        (member (.countryDirect p.destination.family) p.destination) ↔
      ¬ Shadowed inet state flow := by
  unfold listed route Shadowed
  by_cases hdev : (deviceOf inet state flow).map (·.route) = some .direct
  · simp [hdev]
  by_cases hsc : scope inet state flow = true
  · rw [if_neg hdev, if_neg hdev, if_pos hsc, ← hin.siteVpn]
    cases hf : state.sites.find? fun site => siteMatches flow.host site.pattern with
    | some site =>
      have hm := List.mem_of_find?_eq_some hf
      have hsm : siteMatches flow.host site.pattern = true := by simpa using List.find?_some hf
      cases hr : site.route with
      | vpn =>
        have hv := hin.siteVpn.2 ⟨site, hm, hr, hsm⟩
        simp [hr, hv]
      | direct =>
        have hd := hin.siteDirect.2 ⟨site, hm, hr, hsm⟩
        cases hv : member (.siteVpn p.destination.family) p.destination with
        | true => simp [hr, hsc, hdev]
        | false => simp [hr, hsc, hd]
    | none =>
      have hno : ∀ site ∈ state.sites, siteMatches flow.host site.pattern ≠ true := by
        simpa using hf
      have hv : member (.siteVpn p.destination.family) p.destination = false := by
        rw [← Bool.not_eq_true, hin.siteVpn]
        rintro ⟨site, hm, -, h⟩
        exact hno site hm h
      have hd : member (.siteDirect p.destination.family) p.destination = false := by
        rw [← Bool.not_eq_true, hin.siteDirect]
        rintro ⟨site, hm, -, h⟩
        exact hno site hm h
      rw [listed_countries hs hin]
      simp [hsc, hv, hd]
  · simp [hdev, hsc]

/-- The bits of the mark that belong to FoxHole. -/
def ownMarks : BitVec 32 := mark ||| directMark ||| leaseMark

theorem fresh_and {bits : BitVec 32} (hb : ownMarks &&& bits = bits)
    (h : p.mark &&& ownMarks = 0) : p.mark &&& bits = 0 := by
  rw [← hb, ← BitVec.and_assoc, h]
  simp

theorem routeMark_vpn : ∀ r, routeMark r &&& mark ≠ 0 ↔ r = .vpn := by
  intro r
  cases r <;> decide

theorem routeMark_direct : ∀ r, routeMark r &&& directMark ≠ 0 ↔ r = .direct := by
  intro r
  cases r <;> decide

/-- A fresh packet has just the bit it was given. -/
theorem withMark_and {bits given : BitVec 32} (hb : ownMarks &&& bits = bits)
    (h : p.mark &&& ownMarks = 0) : (p.withMark given).mark &&& bits = given &&& bits := by
  rw [Packet.withMark, BitVec.and_or_distrib_right, fresh_and hb h]
  simp

/-- The prerouting hook lets the packet through with a bit of `bits` set. -/
def Marked (inet : Inet) (learned : Learned) (table : Table) (p : Packet) (bits : BitVec 32) :
    Prop :=
  ∃ q, table.passes inet learned .prerouting p = some q ∧ q.mark &&& bits ≠ 0

/-- The marks of the ruleset are the decisions of the policy. -/
structure Refines (inet : Inet) (learned : Learned) (state : State) (table : Table) (flow : Flow)
    (p : Packet) : Prop where
  vpn : Marked inet learned table p mark ↔
    policyDecision inet state { flow with connected := true } = .vpn
  direct : Marked inet learned table p directMark ↔
    policyDecision inet state { flow with connected := true } = .direct
  block : state.settings.killSwitch = true →
    (Marked inet learned table p mark ↔
      policyDecision inet state { flow with connected := false } = .block)

theorem decision_connected (h : flow.source = .lan) :
    policyDecision inet state { flow with connected := true } =
      match listed inet state flow with
      | .direct => .direct
      | .vpn => .vpn :=
  policyDecision_listed h

theorem decision_blocked (h : flow.source = .lan) (hk : state.settings.killSwitch = true) :
    policyDecision inet state { flow with connected := false } =
      match listed inet state flow with
      | .direct => .direct
      | .vpn => .block := by
  have hd : policyDecision inet state { flow with connected := false } = _ :=
    policyDecision_listed h
  have ht : tunnel state { flow with connected := false } = .block := by simp [tunnel, hk]
  rw [ht] at hd
  exact hd

variable {env : Env} {raw : RawState}

/-- The ruleset of a valid state refines the decision exactly at the flows without a direct site
in front of a matching site-VPN rule. -/
theorem refines_iff (hv : Model.validateState env raw = .ok state)
    (hn : nftConfig env.inet state options = .ok table) (hi : p.iif ∈ options.interfaces)
    (hp : Describes env.inet flow p) (hfresh : p.mark &&& ownMarks = 0)
    (hbypass : table.member env.inet learned (.bypass p.destination.family) p.destination = false)
    (hin : InSets (table.member env.inet learned) state flow p) :
    Refines env.inet learned state table flow p ↔ ¬ Shadowed env.inet state flow := by
  have hok := (Model.validateState_ok hv).policy
  have hdev : ∀ device ∈ state.devices, device.Ok env.inet :=
    hok.devices.forall_mem fun _ _ h => h
  have hpass := passes_prerouting hn hi hdev hp (fresh_and (by decide) hfresh) hbypass
  have hlisted := listed_eq_route_iff hok hin
  generalize hr : route ((deviceOf env.inet state flow).map (·.route)) (scope env.inet state flow)
    _ _ _ = r at hpass hlisted
  have hvpn : Marked env.inet learned table p mark ↔ r = .vpn := by
    simp only [Marked, hpass, Option.some.injEq, exists_eq_left']
    rw [withMark_and (by decide) hfresh]
    exact routeMark_vpn r
  have hdirect : Marked env.inet learned table p directMark ↔ r = .direct := by
    simp only [Marked, hpass, Option.some.injEq, exists_eq_left']
    rw [withMark_and (by decide) hfresh]
    exact routeMark_direct r
  rw [← hlisted]
  constructor
  · intro h
    have hd := (hvpn.symm.trans h.vpn)
    rw [decision_connected hp.source] at hd
    cases hl : listed env.inet state flow <;> cases r <;> simp_all
  · intro h
    refine ⟨?_, ?_, fun hk => ?_⟩
    · rw [hvpn, decision_connected hp.source, h]
      cases r <;> simp
    · rw [hdirect, decision_connected hp.source, h]
      cases r <;> simp
    · rw [hvpn, decision_blocked hp.source hk, h]
      cases r <;> simp

/-! A direct site in front of the site-VPN rule for its parent domain. -/

def lanState : State :=
  { Model.defaults with
    settings := { localRules := true, killSwitch := true }
    sites := [⟨"site-000000000001".toList, "www.example.com".toList, .direct⟩,
      ⟨"site-000000000002".toList, "example.com".toList, .vpn⟩] }

def lanOptions : Options where
  interfaces := ["br-lan".toList]
  dnsUid := .value 453

def lanTable : Table :=
  ⟨elements lanOptions, chains decimalInet lanState ["br-lan".toList] 453 lanOptions⟩

def lanFlow (host : Text) : Flow where
  source := .lan
  connected := true
  mac := some "02:00:00:00:00:01".toList
  address := some "192.168.1.20".toList
  host := some host
  country := none

def lanPacket : Packet where
  iif := "br-lan".toList
  oif := []
  mark := 0
  mac := "02:00:00:00:00:01".toList
  source := ⟨[192, 168, 1, 20], by decide, by decide⟩
  destination := ⟨[93, 184, 216, 34], by decide, by decide⟩
  uid := none
  toDns := false
  same_family := by decide

/-- What dnsmasq has put the destination into. -/
def lanLearned (sets : List SetName) : Learned := fun set b =>
  set ∈ sets && b = lanPacket.destination

theorem lanState_valid : Model.validateState Rpc.plainEnv lanState.raw = .ok lanState := by
  decide

theorem lanTable_eq : nftConfig decimalInet lanState lanOptions = .ok lanTable :=
  nftConfig_eq_ok.2 ⟨453, by decide, rfl, by decide, by decide, rfl⟩

theorem lanFlow_describes (host : Text) : Describes decimalInet (lanFlow host) lanPacket where
  source := rfl
  mac := by
    change lc "02:00:00:00:00:01".toList = lanPacket.mac
    decide
  address := by
    have h : "192.168.1.20".toList = decimalInet.arrtoip lanPacket.source := by decide
    have hread := @addressData_arrtoip decimalInet lanPacket.source
    rwa [← h] at hread

theorem lan_inSets_www : InSets (lanTable.member decimalInet
    (lanLearned [.siteVpn .v4, .siteDirect .v4])) lanState (lanFlow "www.example.com".toList)
    lanPacket where
  siteVpn := by decide
  siteDirect := by decide
  countryDirect := by decide

theorem lan_inSets : InSets (lanTable.member decimalInet (lanLearned [.siteVpn .v4])) lanState
    (lanFlow "example.com".toList) lanPacket where
  siteVpn := by decide
  siteDirect := by decide
  countryDirect := by decide

theorem lan_bypass (sets : List SetName) : lanTable.member decimalInet (lanLearned sets)
    (.bypass .v4) lanPacket.destination = decide (.bypass .v4 ∈ sets) := by
  have h : (lanTable.elements (.bypass .v4)).any
      (inRange decimalInet lanPacket.destination) = false := by decide
  simp [Table.member, h, lanLearned]

/-- The decision follows the list and says direct, the ruleset marks for the VPN. -/
theorem refines_broken :
    Model.validateState Rpc.plainEnv lanState.raw = .ok lanState ∧
    (∃ text, dnsmasqConfig lanState.sites = .ok text) ∧
    nftConfig decimalInet lanState lanOptions = .ok lanTable ∧
    lanPacket.iif ∈ lanOptions.interfaces ∧ lanPacket.mark = 0 ∧
    Describes decimalInet (lanFlow "www.example.com".toList) lanPacket ∧
    lanTable.member decimalInet (lanLearned [.siteVpn .v4, .siteDirect .v4]) (.bypass .v4)
      lanPacket.destination = false ∧
    InSets (lanTable.member decimalInet (lanLearned [.siteVpn .v4, .siteDirect .v4])) lanState
      (lanFlow "www.example.com".toList) lanPacket ∧
    policyDecision decimalInet lanState (lanFlow "www.example.com".toList) = .direct ∧
    ¬ Refines decimalInet (lanLearned [.siteVpn .v4, .siteDirect .v4]) lanState lanTable
      (lanFlow "www.example.com".toList) lanPacket := by
  have hd : policyDecision decimalInet lanState (lanFlow "www.example.com".toList) = .direct := by
    decide
  refine ⟨lanState_valid, ⟨_, rfl⟩, lanTable_eq, by decide, rfl, lanFlow_describes _,
    by rw [lan_bypass]; decide, lan_inSets_www, hd, fun h => ?_⟩
  have hpass : lanTable.passes decimalInet (lanLearned [.siteVpn .v4, .siteDirect .v4])
      .prerouting lanPacket = some { lanPacket with mark := mark } := by decide
  have hvpn := h.vpn.1 ⟨_, hpass, by decide⟩
  exact absurd (hd.symm.trans hvpn) (by decide)

/-- The parent domain itself meets no direct site: its packets are marked as the policy decides. -/
theorem refines_iff_parent :
    Refines decimalInet (lanLearned [.siteVpn .v4]) lanState lanTable
      (lanFlow "example.com".toList) lanPacket := by
  have hb : lanTable.member decimalInet (lanLearned [.siteVpn .v4])
      (.bypass lanPacket.destination.family) lanPacket.destination = false := lan_bypass _
  have hno : ¬ Shadowed decimalInet lanState (lanFlow "example.com".toList) := by
    unfold Shadowed
    decide
  have hv : Model.validateState Rpc.plainEnv lanState.raw = .ok lanState := lanState_valid
  exact (refines_iff hv lanTable_eq (by decide) (lanFlow_describes _) (by decide) hb lan_inSets).2
    hno

end Nft
end Foxhole
