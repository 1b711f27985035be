import Foxhole.RoutingRefinement
import Foxhole.Runtime

/-! Which saved policies compile: nftables takes them all, dnsmasq those without inner
wildcards. -/
namespace Foxhole.Runtime
open Check Text Address Policy Routing Nft

/-- No question mark, and no star but that of a leading `*.`. -/
def Supported (pattern : Text) : Prop :=
  '?' ∉ pattern ∧ ('*' ∈ pattern → ∃ rest, pattern = '*' :: '.' :: rest ∧ '*' ∉ rest)

/-- The state of an accepted document, or one with an accepted policy. -/
def Accepted (env : Env) (state : State) : Prop :=
  (∃ raw, Model.validateState env raw = .ok state) ∨
    ∃ resolveMac payload, validateSettings env.inet resolveMac payload = .ok state.toPolicy

/-- What the options of `nft_config` are outside the state. -/
structure Compilable (options : Options) : Prop where
  interfaces : options.interfaces ≠ []
  named : ∀ name ∈ options.interfaces, interfaceName.accepts name = true
  dnsUid : ∃ uid : ℤ, options.dnsUid = .value uid ∧ 1 ≤ uid ∧ uid ≤ 65535

/-- Everything `policy_files` meets outside the state is as it should be. -/
structure Ready (inet : Inet) (state : State) (a : Attempt) : Prop where
  nftset : a.nftset = true
  countries : Succeeds (countryPrefixes inet state a.country)
  interfaces : ∃ names, a.interfaces = .ok names ∧ names ≠ [] ∧
    ∀ name ∈ names, interfaceName.accepts name = true
  dnsUid : ∃ uid : ℤ, a.dnsUid = .ok uid ∧ 1 ≤ uid ∧ uid ≤ 65535
  checked : a.checked = true

section
variable {env : Env} {inet : Inet} {state : State} {p : Text}

theorem Accepted.pattern (h : Accepted env state) :
    ∀ site ∈ state.sites, SitePattern site.pattern := by
  have hpolicy : state.toPolicy.Ok env.inet := by
    rcases h with ⟨raw, h⟩ | ⟨resolveMac, payload, h⟩
    · exact (Model.validateState_ok h).policy
    · exact validateSettings_ok h
  exact hpolicy.sites.forall_mem fun _ _ hsite => hsite.pattern

theorem starHost_accepts : starHost.accepts p = true ↔
    ∃ rest, p = '*' :: '.' :: rest ∧ rest ≠ [] ∧ '*' ∉ rest := by
  rw [Regex.accepts_iff, starHost, Regex.mem_lang_seq]
  constructor
  · rintro ⟨u, rest, rfl, hu, hrest⟩
    obtain rfl := Regex.lang_lit.1 hu
    obtain ⟨hne, hstar⟩ := Regex.accepts_plus_cls.1 (Regex.accepts_iff.2 hrest)
    exact ⟨rest, rfl, hne, fun hm => by simpa using hstar _ hm⟩
  · rintro ⟨rest, rfl, hne, hstar⟩
    refine ⟨['*', '.'], rest, rfl, Regex.lang_lit.2 rfl,
      Regex.accepts_iff.1 (Regex.accepts_plus_cls.2 ⟨hne, fun c hc => ?_⟩)⟩
    exact bne_iff_ne.2 fun h => hstar (h ▸ hc)

/-- Of the patterns that are stored, dnsmasq can be given the supported ones. -/
theorem dnsmasqLine_eq_ok {site : Site} (h : SitePattern site.pattern) :
    Succeeds (dnsmasqLine site) ↔ Supported site.pattern := by
  have hshape : ('*' ∈ site.pattern → starHost.accepts site.pattern = true) ↔
      ('*' ∈ site.pattern → ∃ rest, site.pattern = '*' :: '.' :: rest ∧ '*' ∉ rest) := by
    refine forall_congr' fun _ => starHost_accepts.trans ⟨?_, ?_⟩
    · rintro ⟨rest, hrest, -, hstar⟩
      exact ⟨rest, hrest, hstar⟩
    · rintro ⟨rest, hrest, hstar⟩
      refine ⟨rest, hrest, ?_, hstar⟩
      rintro rfl
      -- a stored pattern has a letter or a digit
      obtain ⟨c, hc, hletter⟩ := h.2.2.2.2.2.1
      rw [hrest] at hc
      simp only [List.mem_cons, List.not_mem_nil, or_false] at hc
      rcases hc with rfl | rfl <;> exact absurd hletter (by decide)
  rw [Supported, ← hshape]
  simp only [dnsmasqLine, succeeds_bind, require_eq_ok, not_or, not_and, Bool.not_eq_false]
  constructor
  · rintro ⟨_, hsite, -⟩
    exact hsite
  · intro hsite
    exact ⟨(), hsite, succeeds_ok⟩

theorem dnsmasqLine_error {site : Site} {e : Err} (h : dnsmasqLine site = .error e) :
    e = .sitePatternUnsupported := by
  unfold dnsmasqLine at h
  cases hline : require (¬ ('?' ∈ site.pattern ∨
      '*' ∈ site.pattern ∧ starHost.accepts site.pattern = false)) Err.sitePatternUnsupported with
  | ok u =>
    rw [hline] at h
    cases h
  | error e' =>
    rw [hline] at h
    cases h
    exact (require_eq_error.1 hline).2.symm

theorem dnsmasqConfig_succeeds {sites : List Site}
    (h : ∀ site ∈ sites, SitePattern site.pattern) :
    Succeeds (dnsmasqConfig sites) ↔ ∀ site ∈ sites, Supported site.pattern := by
  have hlines : Succeeds (dnsmasqConfig sites) ↔ Succeeds (sites.mapM dnsmasqLine) := by
    simp only [dnsmasqConfig, succeeds_bind]
    constructor
    · rintro ⟨lines, hl, -⟩
      exact ⟨lines, hl⟩
    · rintro ⟨lines, hl⟩
      exact ⟨lines, hl, succeeds_ok⟩
  rw [hlines, succeeds_mapM]
  exact forall₂_congr fun site hsite => dnsmasqLine_eq_ok (h site hsite)

theorem dnsmasqConfig_error {sites : List Site} {e : Err} (h : dnsmasqConfig sites = .error e) :
    e = .sitePatternUnsupported := by
  unfold dnsmasqConfig at h
  cases hlines : sites.mapM dnsmasqLine with
  | ok lines =>
    rw [hlines] at h
    cases h
  | error e' =>
    rw [hlines] at h
    cases h
    obtain ⟨site, -, hsite⟩ := mapM_eq_error hlines
    exact dnsmasqLine_error hsite

theorem nftConfig_succeeds {options : Options} (h : Compilable options) :
    Succeeds (nftConfig inet state options) := by
  obtain ⟨uid, huid, hle⟩ := h.dnsUid
  refine ⟨_, nftConfig_eq_ok.2 ⟨uid, ?_, huid, hle, fun name hname => ?_, rfl⟩⟩
  · obtain ⟨name, names, hnames⟩ := List.exists_cons_of_ne_nil h.interfaces
    rw [hnames, List.eraseDups_cons]
    exact List.cons_ne_nil _ _
  · exact h.named name (List.mem_eraseDups.1 hname)

/-- Where everything else is as it should be, the policy files can be made unless dnsmasq
cannot be given a site. -/
theorem policyFiles_succeeds {a : Attempt} (hready : Ready inet state a)
    (hlocal : state.settings.localRules = true) :
    Succeeds (policyFiles inet state true a false) ↔ Succeeds (dnsmasqConfig state.sites) := by
  obtain ⟨countries, hcountries⟩ := hready.countries
  obtain ⟨names, hnames, hne, haccepts⟩ := hready.interfaces
  obtain ⟨uid, huid, hle⟩ := hready.dnsUid
  have hnft : ∀ countries : Prefixes, Succeeds (nftConfig inet state
      { interfaces := names, dnsUid := .value uid, bootstrap := false,
        dnsViaTunnel := a.dnsViaTunnel, country4 := countries.v4, country6 := countries.v6 }) :=
    fun _ => nftConfig_succeeds ⟨hne, haccepts, uid, rfl, hle⟩
  obtain ⟨table, htable⟩ := hnft countries
  have hsites : policySites state false = state.sites := by
    simp [policySites, effectiveSites, hlocal]
  have hprefixes : policyCountries inet state a false = .ok countries := hcountries
  unfold policyFiles
  simp only [succeeds_bind, require_eq_ok, hsites, hprefixes, hnames, huid]
  constructor
  · rintro ⟨-, -, c, -, ns, -, u, -, t, -, dns, hdns, -⟩
    exact ⟨dns, hdns⟩
  · rintro ⟨dns, hdns⟩
    exact ⟨(), fun _ => hready.nftset, countries, rfl, names, rfl, uid, rfl, table, htable, dns,
      hdns, (), trivial, (), hready.checked, succeeds_ok⟩

end

/-- A saved policy always compiles for nftables; for dnsmasq, and so as policy files, it does if
and only if no site has a question mark or an inner star. -/
theorem policy_compiles_iff {env : Env} {state : State} (haccepted : Accepted env state)
    (hlocal : state.settings.localRules = true) :
    (∀ options, Compilable options → Succeeds (nftConfig env.inet state options)) ∧
    (Succeeds (dnsmasqConfig state.sites) ↔ ∀ site ∈ state.sites, Supported site.pattern) ∧
    (∀ e, dnsmasqConfig state.sites = .error e → e = .sitePatternUnsupported) ∧
    ∀ a, Ready env.inet state a → (Succeeds (policyFiles env.inet state true a false) ↔
      ∀ site ∈ state.sites, Supported site.pattern) := by
  have hdns := dnsmasqConfig_succeeds haccepted.pattern
  exact ⟨fun _ => nftConfig_succeeds, hdns, fun _ => dnsmasqConfig_error,
    fun _ hready => (policyFiles_succeeds hready hlocal).trans hdns⟩

/-- A site rule with a question mark, which model.uc matches hosts against. -/
def cdnState : State :=
  { Model.defaults with
    settings := { localRules := true }
    sites := [⟨"site-000000000001".toList, "cdn?.example.com".toList, .direct⟩] }

theorem cdnState_accepted : Accepted Rpc.plainEnv cdnState :=
  Or.inl ⟨cdnState.raw, by decide⟩

/-- An accepted policy that does not compile. -/
theorem cdnState_refused :
    Accepted Rpc.plainEnv cdnState ∧ cdnState.settings.localRules = true ∧
    siteMatches (some "cdn1.example.com".toList) "cdn?.example.com".toList = true ∧
    dnsmasqConfig cdnState.sites = .error .sitePatternUnsupported :=
  ⟨cdnState_accepted, rfl, by decide, by decide⟩

theorem cdnState_nft : Succeeds (nftConfig decimalInet cdnState lanOptions) ∧
    ¬ Succeeds (dnsmasqConfig cdnState.sites) := by
  obtain ⟨hnft, hdns, -, -⟩ := policy_compiles_iff cdnState_accepted rfl
  refine ⟨hnft lanOptions ⟨by decide, by decide, 453, rfl, by decide⟩, fun h => ?_⟩
  exact absurd ((hdns.1 h) _ List.mem_cons_self).1 (by decide)

end Foxhole.Runtime
