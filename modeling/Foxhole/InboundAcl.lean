import Foxhole.Inbound
import Foxhole.RoutingRefinement
import Foxhole.Runtime

/-! The listeners for remote clients: their configuration, whose ACL Hysteria reads from the top,
and the country prefixes that foxhole-inbound gives it. -/
namespace Foxhole.Inbound
open Check Text Address Nft Routing

structure Socks where
  listen : Text
  username : Field Text := .missing
  password : Field Text := .missing
deriving DecidableEq

structure Stats where
  listen : Text
  secret : Text
deriving DecidableEq

/-- inbound.json with what the configuration of a listener reads. -/
structure ListenerBase extends Base where
  allowedLan : List Text := []
  sharedAllowLan : Bool := false
  preserveSocks : Bool := false
  /-- the credentials of a core tunnel that is up -/
  coreSocks : Option Socks := none
  legacyUsers : List (Text × Text) := []
deriving DecidableEq

def PRIVATE : List Text :=
  ["0.0.0.0/8", "10.0.0.0/8", "100.64.0.0/10", "127.0.0.0/8", "169.254.0.0/16", "172.16.0.0/12",
    "192.168.0.0/16", "198.18.0.0/15", "224.0.0.0/4", "240.0.0.0/4", "::/128", "::1/128",
    "fc00::/7", "fe80::/10", "ff00::/8"].map String.toList

inductive Outbound where
  | direct | upstream | reject
deriving DecidableEq

/-- `direct(10.0.0.0/8)`; without an address, `direct(all)`. -/
structure AclRule where
  outbound : Outbound
  address : Option Text
deriving DecidableEq

/-- What a listener's configuration sets over the template. -/
structure Config where
  port : ℤ
  userpass : List (Text × Text)
  acl : List AclRule
  upstream : Option Socks
  trafficStats : Option Stats
deriving DecidableEq

def ranges (outbound : Outbound) (addresses : List Text) : List AclRule :=
  addresses.map fun address => ⟨outbound, some address⟩

def all (outbound : Outbound) : AclRule := ⟨outbound, none⟩

def normalizeAll (inet : Inet) (addresses : List Text) : Except Err (List Text) :=
  addresses.mapM (normalizeAddress inet)

/-- The LAN ranges a client may reach. -/
def lanRanges (inet : Inet) (base : ListenerBase) (client : Client) : Except Err (List Text) :=
  if client.allowLan = .value true then normalizeAll inet base.allowedLan else return []

def activeIsCore (state : State) : Bool :=
  let active := state.servers.find? fun s => s.id = .ofOption state.activeServerId
  active.map (·.engine) = some Model.engineCore

/-- The rules behind the private ranges. -/
def publicRules (inet : Inet) (state : State) (connected : Bool) (prefixes : List Text) :
    Except Err (List AclRule) :=
  if connected && state.settings.clientRules then do
    let direct ← normalizeAll inet prefixes
    return ranges .direct direct ++ [all .upstream]
  else if activeIsCore state && state.settings.clientRules then return [all .reject]
  else return [all .direct]

/-- The SOCKS side of the tunnel. `socksOf` reads it from the configuration of a server. -/
def upstreamSocks (socksOf : Server → Except Err (Option Socks)) (base : ListenerBase)
    (state : State) : Except Err Socks := do
  let own := state.servers.filter fun item => item.id = .ofOption state.activeServerId
  let some server := own.getLast? | throw .serverNotFound
  if server.engine = Model.engineCore then
    match base.coreSocks with
    | some socks => return socks
    | none => throw .tunnelMissing
  else do
    let socks ← if base.preserveSocks then socksOf server else pure none
    return socks.getD { listen := "127.0.0.1:17891".toList }

def upstreamOutbound (socksOf : Server → Except Err (Option Socks)) (base : ListenerBase)
    (state : State) (connected : Bool) : Except Err (Option Socks) :=
  if connected && state.settings.clientRules then some <$> upstreamSocks socksOf base state
  else return none

/-- `stats_config` of client-observation.uc. -/
def statsConfig (index : ℤ) (secret : Text) : Except Err Stats := do
  require (0 ≤ index ∧ index ≤ 4 ∧ (hexOf 64).accepts secret = true) .invalidConfig
  return { listen := "127.0.0.1:".toList ++ decimal (901 + index).toNat, secret }

/-- `^127\.0\.0\.1:90([1-5])$` -/
def statsPort (listen : Text) : Option ℕ :=
  [1, 2, 3, 4, 5].find? fun n => listen = "127.0.0.1:90".toList ++ decimal n

def trafficStats (stats : Field Stats) : Except Err (Option Stats) :=
  match stats with
  | .missing => return none
  | .invalid => throw .invalidConfig
  | .value stats => do
    let some port := statsPort stats.listen | throw .invalidConfig
    some <$> statsConfig ((port : ℤ) - 1) stats.secret

/-- What `config` asks of a client. -/
def configurable (client : Client) : Bool :=
  client.inbound && (client.secret.value?.any fun secret => (hexOf 64).accepts secret) &&
  client.port.value?.any fun port => 1 ≤ port && port ≤ 65535

def config (inet : Inet) (socksOf : Server → Except Err (Option Socks)) (base : ListenerBase)
    (state : State) (client : Client) (connected : Bool) (prefixes : List Text)
    (stats : Field Stats) : Except Err Config := do
  require (configurable client = true) .invalidConfig
  let lan ← lanRanges inet base client
  let rest ← publicRules inet state connected prefixes
  let upstream ← upstreamOutbound socksOf base state connected
  let trafficStats ← trafficStats stats
  return {
    port := client.port.value?.getD 0
    userpass := [(client.key, client.secret.value?.getD [])]
    acl := ranges .direct lan ++ (ranges .reject PRIVATE ++ rest)
    upstream, trafficStats }

/-- `users[client.id] = client.secret` over the legacy users. -/
def sharedUsers (base : ListenerBase) (clients : List Client) : List (Text × Text) :=
  clients.foldl (fun users client => users.filter (·.1 ≠ client.key) ++
    [(client.key, client.secret.value?.getD [])]) base.legacyUsers

def sharedConfig (inet : Inet) (socksOf : Server → Except Err (Option Socks)) (base : ListenerBase)
    (state : State) (clients : List Client) (connected : Bool) (prefixes : List Text)
    (stats : Field Stats) : Except Err Config := do
  let first :: _ := clients | throw .invalidConfig
  require (clients.length ≤ limit base.toBase) .invalidConfig
  let seed := { first with port := .value 443, allowLan := .value base.sharedAllowLan }
  let result ← config inet socksOf base state seed connected prefixes stats
  return { result with userpass := sharedUsers base clients }

/-- `^[A-Z]{2}$` -/
def countryCode : Regex Char := .rep 2 (.cls isUpper)

def collectPrefix (inet : Inet) (prefixes : List Text) (item : Field Text) :
    Except Err (List Text) := do
  let .value item := item | throw .invalidAddress
  let address ← normalizeAddress inet item
  require (prefixes.length + 1 ≤ Runtime.MAX_PREFIXES) .countryDataTooLarge
  return prefixes ++ [address]

def collectFamily (inet : Inet) (prefixes : List Text) (family : Field (List (Field Text))) :
    Except Err (List Text) := do
  let .value items := family | throw .countryDataInvalid
  items.foldlM (collectPrefix inet) prefixes

def collectCountry (inet : Inet) (fetch : Text → Except Err Runtime.CountryData)
    (prefixes : List Text) (item : Country) : Except Err (List Text) :=
  if item.route = .direct then do
    require (countryCode.accepts item.code = true) .invalidCountry
    let data ← fetch item.code
    require (data.countryCode = .value item.code) .countryDataInvalid
    let prefixes ← collectFamily inet prefixes data.ipv4
    collectFamily inet prefixes data.ipv6
  else return prefixes

/-- The prefixes foxhole-inbound gives to its listeners. -/
def collectPrefixes (inet : Inet) (state : State) (connected : Bool)
    (fetch : Text → Except Err Runtime.CountryData) : Except Err (List Text) :=
  if connected && state.settings.clientRules then
    state.countries.foldlM (collectCountry inet fetch) []
  else return []

def AclRule.applies (inet : Inet) (b : IpBytes) (rule : AclRule) : Bool :=
  match rule.address with
  | none => true
  | some range => inRange inet b range

/-- The outbound of the first rule that matches a destination. -/
def firstMatch (inet : Inet) (acl : List AclRule) (b : IpBytes) : Option Outbound :=
  (acl.find? (AclRule.applies inet b)).map (·.outbound)

/-- The destination lies in one of the written ranges. -/
def InRanges (inet : Inet) (b : IpBytes) (addresses : List Text) : Prop :=
  ∃ address ∈ addresses, inRange inet b address = true

instance (inet : Inet) (b : IpBytes) (addresses : List Text) :
    Decidable (InRanges inet b addresses) :=
  inferInstanceAs (Decidable (∃ address ∈ addresses, inRange inet b address = true))

/-- The addresses a country's file names. -/
def InCountry (inet : Inet) (fetch : Text → Except Err Runtime.CountryData) (b : IpBytes)
    (code : Text) : Prop :=
  ∃ data, fetch code = .ok data ∧ ∃ family ∈ [data.ipv4, data.ipv6], ∃ items,
    family = .value items ∧ ∃ item, .value item ∈ items ∧ inRange inet b item = true

/-- The outbound that carries out a decision. -/
def outboundOf : Decision → Outbound
  | .vpn => .upstream
  | .direct => .direct
  | .block => .reject

variable {inet : Inet} {b : IpBytes} {v a : Text} {addresses normalized prefixes : List Text}
  {acl acl' : List AclRule} {outbound : Outbound} {state : State} {connected : Bool}
  {fetch : Text → Except Err Runtime.CountryData} {base : ListenerBase} {client : Client}
  {socksOf : Server → Except Err (Option Socks)} {stats : Field Stats} {result : Config}

@[simp] theorem inRanges_nil : ¬ InRanges inet b [] := by simp [InRanges]

@[simp] theorem inRanges_cons : InRanges inet b (v :: addresses) ↔
    inRange inet b v = true ∨ InRanges inet b addresses := by
  simp [InRanges]

theorem inRange_normalizeAddress (h : normalizeAddress inet v = .ok a) :
    inRange inet b a = inRange inet b v := by
  obtain ⟨info, hv, -, rfl⟩ := normalizeAddress_eq_ok.1 h
  unfold inRange
  rw [addressData_canonicalAddress, hv]
  simp only [Info.masked, maskBytes_width, maskBytes_maskBytes]

theorem inRanges_normalizeAll (h : normalizeAll inet addresses = .ok normalized) :
    InRanges inet b normalized ↔ InRanges inet b addresses := by
  unfold normalizeAll at h
  induction addresses generalizing normalized with
  | nil =>
    simp only [List.mapM_nil, pure_eq_ok] at h
    rw [← h]
  | cons v addresses ih =>
    simp only [List.mapM_cons, bind_eq_ok, pure_eq_ok] at h
    obtain ⟨a, ha, rest, hrest, rfl⟩ := h
    have hrange : inRange inet b a = inRange inet b v := inRange_normalizeAddress ha
    rw [inRanges_cons, inRanges_cons, hrange, ih hrest]

theorem firstMatch_append : firstMatch inet (acl ++ acl') b =
    (firstMatch inet acl b).or (firstMatch inet acl' b) := by
  rw [firstMatch, List.find?_append, Option.map_or]
  rfl

theorem firstMatch_ranges : firstMatch inet (ranges outbound addresses) b =
    if InRanges inet b addresses then some outbound else none := by
  induction addresses with
  | nil => simp [ranges, firstMatch]
  | cons v addresses ih =>
    have hcons : ranges outbound (v :: addresses) = [⟨outbound, some v⟩] ++
        ranges outbound addresses := rfl
    rw [hcons, firstMatch_append, ih]
    cases hv : inRange inet b v <;> simp [firstMatch, AclRule.applies, hv]

theorem firstMatch_all : firstMatch inet [all outbound] b = some outbound := rfl

/-- A loop that appends prefixes: the ranges at its end are those at its start and what the
elements bring. -/
theorem inRanges_foldlM {α : Type} {step : List Text → α → Except Err (List Text)}
    {Brings : α → Prop} {items : List α} {out : List Text}
    (hstep : ∀ xs x ys, step xs x = .ok ys → (InRanges inet b ys ↔ InRanges inet b xs ∨ Brings x))
    (h : items.foldlM step prefixes = .ok out) :
    InRanges inet b out ↔ InRanges inet b prefixes ∨ ∃ x ∈ items, Brings x := by
  refine foldlM_prefix (I := fun pre out => InRanges inet b out ↔
    InRanges inet b prefixes ∨ ∃ x ∈ pre, Brings x) ?_ (by simp) h
  intro pre xs x ys hpre hx
  rw [hstep xs x ys hx, hpre]
  simp only [List.mem_append, List.mem_singleton, or_and_right, exists_or, exists_eq_left, or_assoc]

theorem inRanges_collectPrefix {item : Field Text} {out : List Text}
    (h : collectPrefix inet prefixes item = .ok out) :
    InRanges inet b out ↔ InRanges inet b prefixes ∨
      ∃ range, item = .value range ∧ inRange inet b range = true := by
  unfold collectPrefix at h
  split at h
  · rename_i range
    simp only [bind_eq_ok, require_eq_ok, pure_eq_ok] at h
    obtain ⟨address, ha, -, -, rfl⟩ := h
    have hrange : inRange inet b address = inRange inet b range := inRange_normalizeAddress ha
    simp [InRanges, List.mem_append, or_and_right, exists_or, hrange]
  · cases h

theorem inRanges_collectFamily {family : Field (List (Field Text))} {out : List Text}
    (h : collectFamily inet prefixes family = .ok out) :
    InRanges inet b out ↔ InRanges inet b prefixes ∨
      ∃ items, family = .value items ∧ ∃ item, .value item ∈ items ∧
        inRange inet b item = true := by
  unfold collectFamily at h
  split at h
  · rw [inRanges_foldlM (fun _ _ _ hx => inRanges_collectPrefix hx) h]
    constructor
    · rintro (hp | ⟨_, hm, range, rfl, hr⟩)
      · exact Or.inl hp
      · exact Or.inr ⟨_, rfl, range, hm, hr⟩
    · rintro (hp | ⟨_, hitems, range, hm, hr⟩)
      · exact Or.inl hp
      · cases hitems
        exact Or.inr ⟨_, hm, range, rfl, hr⟩
  · cases h

theorem inRanges_collectCountry {item : Country} {out : List Text}
    (h : collectCountry inet fetch prefixes item = .ok out) :
    InRanges inet b out ↔ InRanges inet b prefixes ∨
      (item.route = .direct ∧ InCountry inet fetch b item.code) := by
  unfold collectCountry at h
  split at h
  · rename_i hd
    simp only [bind_eq_ok, require_eq_ok] at h
    obtain ⟨-, -, data, hdata, -, -, xs, hx, hy⟩ := h
    rw [inRanges_collectFamily hy, inRanges_collectFamily hx, or_assoc]
    simp only [InCountry, hdata, hd, Except.ok.injEq, exists_eq_left', List.exists_mem_cons_iff,
      List.not_mem_nil, false_and, exists_false, or_false, true_and]
  · rename_i hd
    simp only [pure_eq_ok] at h
    simp [← h, hd]

theorem inRanges_collectPrefixes (hcr : (connected && state.settings.clientRules) = true)
    (h : collectPrefixes inet state connected fetch = .ok prefixes) :
    InRanges inet b prefixes ↔
      ∃ item ∈ state.countries, item.route = .direct ∧ InCountry inet fetch b item.code := by
  rw [collectPrefixes, if_pos hcr] at h
  rw [inRanges_foldlM (fun _ _ _ hx => inRanges_collectCountry hx) h]
  simp [InRanges]

theorem inRanges_lanRanges {lan : List Text} (h : lanRanges inet base client = .ok lan) :
    InRanges inet b lan ↔ client.allowLan = .value true ∧ InRanges inet b base.allowedLan := by
  unfold lanRanges at h
  split at h
  · rename_i ha
    rw [inRanges_normalizeAll h]
    simp [ha]
  · rename_i ha
    simp only [pure_eq_ok] at h
    simp [← h, ha]

/-- Behind the private ranges the rules follow the decision. -/
theorem firstMatch_publicRules {flow : Flow} {rest : List AclRule}
    (h : publicRules inet state connected prefixes = .ok rest)
    (hp : collectPrefixes inet state connected fetch = .ok prefixes)
    (hsource : flow.source = .client) (hconnected : flow.connected = connected)
    (hcountry : ∀ item ∈ state.countries, item.route = .direct →
      (InCountry inet fetch b item.code ↔ flow.country.map uc = some item.code)) :
    firstMatch inet rest b = some (outboundOf (policyDecision inet state flow)) := by
  have hdecision : policyDecision inet state flow = clientDecision state flow := by
    rw [policyDecision, if_pos hsource]
  rw [hdecision]
  unfold publicRules at h
  split at h
  · rename_i hcr
    simp only [bind_eq_ok, pure_eq_ok] at h
    obtain ⟨direct, hdirect, rfl⟩ := h
    have hin : InRanges inet b direct ↔
        (state.countries.any fun item =>
          some item.code = flow.country.map uc && item.route = .direct) = true := by
      rw [inRanges_normalizeAll hdirect, inRanges_collectPrefixes hcr hp]
      simp only [List.any_eq_true, Bool.and_eq_true, decide_eq_true_eq]
      constructor
      · rintro ⟨item, hm, hd, hin⟩
        exact ⟨item, hm, ((hcountry item hm hd).1 hin).symm, hd⟩
      · rintro ⟨item, hm, hc, hd⟩
        exact ⟨item, hm, hd, (hcountry item hm hd).2 hc.symm⟩
    obtain ⟨hc, hr⟩ := Bool.and_eq_true_iff.1 hcr
    rw [firstMatch_append, firstMatch_ranges, firstMatch_all]
    simp only [clientDecision, hconnected, hc, hr, hin, Bool.not_true, Bool.false_and,
      Bool.or_self, Bool.false_eq_true, if_false]
    split <;> rfl
  · rename_i hcr
    have hclosed : flow.connected = false ∨ state.settings.clientRules = false := by
      rw [hconnected]
      simpa [← Bool.not_eq_true, imp_iff_not_or] using hcr
    split at h <;> rename_i hcore
    · simp only [pure_eq_ok] at h
      obtain ⟨ha, hr⟩ := Bool.and_eq_true_iff.1 hcore
      have hc : flow.connected = false := by simpa [hr] using hclosed
      have hengine : decide ((state.servers.find? fun s => s.id = .ofOption
          state.activeServerId).map (·.engine) = some Model.engineCore) = true := ha
      rw [← h, firstMatch_all]
      simp only [clientDecision, hc, hr, hengine, Bool.not_false, Bool.and_self, if_true]
      rfl
    · simp only [pure_eq_ok] at h
      have hblock : (!flow.connected && state.settings.clientRules &&
          decide ((state.servers.find? fun s => s.id = .ofOption
            state.activeServerId).map (·.engine) = some Model.engineCore)) = false := by
        rw [Bool.and_assoc, Bool.and_comm state.settings.clientRules]
        exact Bool.and_eq_false_iff.2 (Or.inr (Bool.not_eq_true _ ▸ hcore))
      have hdirect : (!flow.connected || !state.settings.clientRules) = true := by
        simpa using hclosed
      rw [← h, firstMatch_all]
      simp only [clientDecision, hblock, hdirect, Bool.false_eq_true, if_false, if_true]
      rfl

/-- The listener's ACL does with a destination what the policy says of it; in the private ranges
it lets through the LAN that the listener may reach. -/
structure Agrees (inet : Inet) (base : ListenerBase) (state : State) (flow : Flow) (b : IpBytes)
    (allowLan : Prop) (acl : List AclRule) : Prop where
  outside : ¬ InRanges inet b PRIVATE →
    firstMatch inet acl b = some (outboundOf (policyDecision inet state flow))
  inside : InRanges inet b PRIVATE →
    ((∃ outbound, firstMatch inet acl b = some outbound ∧ outbound ≠ .reject) ↔
      allowLan ∧ InRanges inet b base.allowedLan)

theorem config_agrees {flow : Flow}
    (hlan : ∀ range ∈ base.allowedLan, ∀ b, inRange inet b range = true → InRanges inet b PRIVATE)
    (hp : collectPrefixes inet state connected fetch = .ok prefixes)
    (hsource : flow.source = .client) (hconnected : flow.connected = connected)
    (hcountry : ∀ item ∈ state.countries, item.route = .direct →
      (InCountry inet fetch b item.code ↔ flow.country.map uc = some item.code))
    (h : config inet socksOf base state client connected prefixes stats = .ok result) :
    Agrees inet base state flow b (client.allowLan = .value true) result.acl := by
  simp only [config, bind_eq_ok, require_eq_ok, pure_eq_ok] at h
  obtain ⟨-, -, lan, hl, rest, hr, upstream, -, traffic, -, rfl⟩ := h
  have hrest : firstMatch inet rest b = _ :=
    firstMatch_publicRules hr hp hsource hconnected hcountry
  have hdirect := @inRanges_lanRanges inet b base client lan hl
  constructor
  · intro hpub
    have hno : ¬ InRanges inet b lan := by
      rw [hdirect]
      rintro ⟨-, range, hm, hin⟩
      exact hpub (hlan range hm b hin)
    rw [firstMatch_append, firstMatch_append, firstMatch_ranges, firstMatch_ranges, if_neg hno,
      if_neg hpub, hrest]
    rfl
  · intro hpriv
    rw [firstMatch_append, firstMatch_append, firstMatch_ranges, firstMatch_ranges, if_pos hpriv,
      ← hdirect]
    by_cases hin : InRanges inet b lan
    · simp [hin]
    · simp [hin]

/-- **The inbound ACL is the policy.** In both listener modes. -/
theorem acl_agrees {flow : Flow}
    (hlan : ∀ range ∈ base.allowedLan, ∀ b, inRange inet b range = true → InRanges inet b PRIVATE)
    (hp : collectPrefixes inet state connected fetch = .ok prefixes)
    (hsource : flow.source = .client) (hconnected : flow.connected = connected)
    (hcountry : ∀ item ∈ state.countries, item.route = .direct →
      (InCountry inet fetch b item.code ↔ flow.country.map uc = some item.code)) :
    (∀ client stats result,
      config inet socksOf base state client connected prefixes stats = .ok result →
      Agrees inet base state flow b (client.allowLan = .value true) result.acl) ∧
    ∀ clients stats result,
      sharedConfig inet socksOf base state clients connected prefixes stats = .ok result →
      Agrees inet base state flow b (base.sharedAllowLan = true) result.acl := by
  refine ⟨fun client stats result h => config_agrees hlan hp hsource hconnected hcountry h,
    fun clients stats result h => ?_⟩
  unfold sharedConfig at h
  split at h
  · simp only [bind_eq_ok, require_eq_ok, pure_eq_ok] at h
    obtain ⟨-, -, own, hown, rfl⟩ := h
    have hagrees := config_agrees hlan hp hsource hconnected hcountry hown
    simpa using hagrees
  · cases h

/-! A client abroad, of a router whose owner sends one country around the VPN. -/

def homeServer : Server where
  id := .value "server-000000000001".toList
  name := .value "home".toList
  engine := .missing
  protocol := .missing
  endpoint := .value "home".toList
  config := .value "home".toList

def homeState : State :=
  { Model.defaults with
    settings := { clientRules := true }
    countries := [⟨"DE".toList, .direct⟩]
    activeServerId := some "server-000000000001".toList
    servers := [homeServer] }

def homeBase : ListenerBase := { allowedLan := ["192.168.0.0/16".toList], sharedAllowLan := true }

def homeClient : Client where
  id := .value "client-000000000001".toList
  name := .value "phone".toList
  deviceType := .value "smartphone".toList
  inbound := true
  port := .value 443
  secret := .value (List.replicate 64 '0')
  allowLan := .value true

def homeFetch (_ : Text) : Except Err Runtime.CountryData :=
  .ok ⟨.value "DE".toList, .value [.value "9.0.0.0/8".toList], .value []⟩

def homeFlow : Flow where
  source := .client
  connected := true
  mac := none
  address := none
  host := none
  country := some "de".toList

def quad9 : IpBytes := ⟨[9, 9, 9, 9], by decide, by decide⟩

theorem homeClient_direct : ∃ result,
    config decimalInet (fun _ => .ok none) homeBase homeState homeClient true
      ["9.0.0.0/8".toList] .missing = .ok result ∧
    firstMatch decimalInet result.acl quad9 = some .direct := by
  have hlan : ∀ range ∈ homeBase.allowedLan, ∀ b, inRange decimalInet b range = true →
      InRanges decimalInet b PRIVATE := by
    intro range hr b hb
    obtain rfl := List.mem_singleton.1 hr
    exact ⟨_, by decide, hb⟩
  have hp : collectPrefixes decimalInet homeState true homeFetch = .ok ["9.0.0.0/8".toList] := by
    decide
  have hcountry : ∀ item ∈ homeState.countries, item.route = .direct →
      (InCountry decimalInet homeFetch quad9 item.code ↔
        homeFlow.country.map uc = some item.code) := by
    intro item hi _
    obtain rfl := List.mem_singleton.1 hi
    refine iff_of_true ⟨_, rfl, _, List.mem_cons_self, _, rfl, "9.0.0.0/8".toList, ?_, ?_⟩ ?_
    · exact List.mem_singleton_self _
    · decide
    · decide
  obtain ⟨result, hresult⟩ : Succeeds (config decimalInet (fun _ => .ok none) homeBase homeState
      homeClient true ["9.0.0.0/8".toList] .missing) := by decide
  have hagrees := (@acl_agrees decimalInet quad9 _ homeState true homeFetch homeBase
    (fun _ => .ok none) homeFlow hlan hp rfl rfl hcountry).1 homeClient .missing result hresult
  refine ⟨result, hresult, (hagrees.outside (by decide)).trans ?_⟩
  decide

end Foxhole.Inbound
