import Foxhole.Policy

/-! What a validated policy satisfies, and that validating it again changes nothing. -/
namespace Foxhole
open Check Text Address Policy

variable {inet : Inet} {resolveMac : Text → Option Text} {seen : List RuleKey}

namespace Policy
variable {v p t : Text}

theorem isSiteChar_cases {c : Char} (h : isSiteChar c = true) :
    isUpper c = false ∧ isSpace c = false ∧ c ≠ ':' ∧ c ≠ '|' := by
  have hup : isUpper c = false := by
    by_contra hu
    rw [Bool.not_eq_false, isUpper_iff] at hu
    simp only [isSiteChar, isLower, isDigit, Bool.or_eq_true, Bool.and_eq_true, decide_eq_true_eq,
      Char.le_def, UInt32.le_iff_toNat_le] at h
    change ((((((97 ≤ c.toNat ∧ c.toNat ≤ 122) ∨ (48 ≤ c.toNat ∧ c.toNat ≤ 57)) ∨ c = '*') ∨
      c = '?') ∨ c = '_') ∨ c = '.') ∨ c = '-' at h
    rcases h with (((((h | h) | rfl) | rfl) | rfl) | rfl) | rfl
    · omega
    · omega
    all_goals revert hu; decide
  refine ⟨hup, ?_, ?_, ?_⟩
  · by_contra hs
    simp only [isSpace, Bool.not_eq_false, Bool.or_eq_true, decide_eq_true_eq] at hs
    rcases hs with ((rfl | rfl) | rfl) | rfl <;> revert h <;> decide
  all_goals rintro rfl; revert h; decide

/-- A pattern of the stored shape has no dot at either end. -/
theorem stripDots_sitePattern (h : SitePattern p) : stripDots p = p := by
  obtain ⟨-, -, -, -, -, -, hl⟩ := h
  have hhead : p.head? ≠ some '.' := by
    intro hh
    obtain ⟨t, rfl⟩ := List.head?_eq_some_iff.1 hh
    have : [] ∈ ('.' :: t).splitOn '.' := by
      rw [List.splitOn_eq_splitOnP, ← List.nil_append ('.' :: t),
        List.splitOnP_append_cons [] t (by simp)]
      simp
    exact (hl _ this).1 rfl
  have hlast : p.getLast? ≠ some '.' := by
    intro hh
    obtain ⟨t, rfl⟩ := List.getLast?_eq_some_iff.1 hh
    have : [] ∈ (t ++ ['.']).splitOn '.' := by
      rw [List.splitOn_eq_splitOnP, List.splitOnP_append_cons t [] (by simp)]
      simp
    exact (hl _ this).1 rfl
  simp [stripDots, hhead, hlast]

theorem stripHttp_eq_none (h : ':' ∉ p) : stripHttp p = none := by
  have : ∀ w : Text, ':' ∈ w → ¬ w <+: p := fun w hw hpre => h (hpre.subset hw)
  simp [stripHttp, this]

/-- A pattern of the stored shape is its own normal form. -/
theorem normalizeSite_sitePattern (h : SitePattern p) : normalizeSite (.value p) = .ok p := by
  have hc := fun c hc => isSiteChar_cases (h.2.2.1 c hc)
  have htrim : trim p = p := trim_eq_self fun c hm => (hc c hm).2.1
  have hlc : lc p = p := lc_eq_self fun c hm => (hc c hm).1
  have hhttp : stripHttp p = none := stripHttp_eq_none fun hm => (hc _ hm).2.2.1 rfl
  have hadb : adblock.accepts p = false := by
    by_contra ha
    rw [Bool.not_eq_false, Regex.accepts_iff] at ha
    obtain ⟨u, v, rfl, hu, -⟩ := Regex.mem_lang_seq.1 ha
    rw [Regex.lang_lit.1 hu] at hc
    exact (hc '|' (List.mem_append_left _ (by decide))).2.2.2 rfl
  simp [normalizeSite, siteHost, htrim, hlc, hhttp, hadb, stripDots_sitePattern h, h]

theorem normalizeSite_shape {f : Field Text} (h : normalizeSite f = .ok p) : SitePattern p := by
  cases f with
  | missing => cases h
  | invalid => cases h
  | value v =>
    simp only [normalizeSite, bind_eq_ok, pure_eq_ok, require_eq_ok] at h
    obtain ⟨_, -, _, hs, rfl⟩ := h
    exact hs

theorem deviceName_ok {f : Field Text} (h : deviceName f = .ok t) :
    trim t = t ∧ t.length ≤ 64 ∧ hasCntrl t = false := by
  cases f with
  | missing => cases h; decide
  | invalid => cases h
  | value name =>
    simp only [deviceName, bind_eq_ok, require_eq_ok, pure_eq_ok] at h
    obtain ⟨-, ⟨hl, hcn⟩, rfl⟩ := h
    refine ⟨trim_trim, trim_length_le.trans hl, ?_⟩
    rw [hasCntrl, List.any_eq_false] at hcn ⊢
    exact fun c hc => hcn c (trim_sublist.subset hc)

theorem deviceAddress_ok {f : Field Text} {a : Option Text}
    (h : deviceAddress inet f = .ok a) : ∀ t ∈ a, normalizeAddress inet t = .ok t := by
  rintro t rfl
  rcases f with _ | _ | _ | ⟨c, w⟩
  · cases h
  · cases h
  · cases h
  · simp only [deviceAddress, map_eq_ok, Option.some.injEq] at h
    obtain ⟨_, hv, rfl⟩ := h
    exact normalizeAddress_normalized hv

theorem deviceMac_ok {f : Field Text} {a : Option Text} {m : Text}
    (h : deviceMac inet resolveMac f a = .ok m) : normalizeMac m = .ok m := by
  unfold deviceMac at h
  split at h
  · exact normalizeMac_normalized h
  · cases h
  · split at h
    · cases h
    · cases h
    · exact normalizeMac_normalized h

end Policy

/-- A device as the router stores it. -/
structure Device.Ok (inet : Inet) (device : Device) : Prop where
  id : (tagged "device".toList 12).accepts device.id = true
  name : trim device.name = device.name ∧ device.name.length ≤ 64 ∧ hasCntrl device.name = false
  address : ∀ a ∈ device.address, normalizeAddress inet a = .ok a
  mac : ∀ m ∈ device.mac, normalizeMac m = .ok m
  bound : device.bindMac = true → device.mac ≠ none
  unbound : device.bindMac = false → device.mac = none ∧ device.address ≠ none

structure Site.Ok (site : Site) : Prop where
  id : (tagged "site".toList 12).accepts site.id = true
  pattern : SitePattern site.pattern

/-- The policy invariant: every rule is in normal form, and no two claim the same key. -/
structure Policy.Ok (inet : Inet) (policy : Policy) : Prop where
  countries : Scanned (fun country : Country => [country.code])
    (fun _ country => country.code ∈ countryCodes) [] policy.countries
  countries_le : policy.countries.length ≤ 249
  devices : Scanned (Device.keys inet) (fun _ device => device.Ok inet) [] policy.devices
  devices_le : policy.devices.length ≤ 512
  sites : Scanned Site.keys (fun _ site => site.Ok)
    (seenAfter (Device.keys inet) [] policy.devices) policy.sites
  sites_le : policy.sites.length ≤ 2048

namespace Policy
variable {device : Device} {site : Site} {policy : Policy}

theorem checkCountry_ok {s : List Text} {raw : RawCountry} {country : Country}
    (h : checkCountry s raw = .ok country) :
    country.code ∈ countryCodes ∧ [country.code].Disjoint s := by
  rcases raw with code | ⟨code, _ | route⟩
  · simp only [checkCountry, bind_eq_ok, require_eq_ok, pure_eq_ok] at h
    obtain ⟨-, ⟨hc, hs⟩, rfl⟩ := h
    exact ⟨hc, by simpa using hs⟩
  · simp [checkCountry] at h
  · simp only [checkCountry, bind_eq_ok, require_eq_ok, pure_eq_ok] at h
    obtain ⟨-, ⟨hc, hs⟩, rfl⟩ := h
    exact ⟨hc, by simpa using hs⟩

theorem boundMac_ok {b : Bool} {f : Field Text} {a : Option Text} {mac : Option Text}
    (h : boundMac inet resolveMac b f a = .ok mac) :
    (∀ m ∈ mac, normalizeMac m = .ok m) ∧ (b = true → mac ≠ none) ∧ (b = false → mac = none) := by
  cases b with
  | false => cases h; simp
  | true =>
    simp only [boundMac, if_true, map_eq_ok] at h
    obtain ⟨m, hm, rfl⟩ := h
    simpa using deviceMac_ok hm

theorem checkDevice_ok {item : RawDevice} (h : checkDevice inet resolveMac seen item = .ok device) :
    device.Ok inet ∧ (device.keys inet).Disjoint seen := by
  obtain ⟨id, route, bindMac, preventLeak, name, address, mac⟩ := item
  rcases route with _ | route
  · simp [checkDevice] at h
  rcases bindMac with _ | bindMac
  · simp [checkDevice] at h
  simp only [checkDevice, bind_eq_ok, require_eq_ok, pure_eq_ok] at h
  obtain ⟨-, ⟨hid, hseen⟩, -, -, n, hn, a, ha, -, hab, m, hm, -, hident, rfl⟩ := h
  obtain ⟨hmac, hbound, hunbound⟩ := boundMac_ok hm
  refine ⟨⟨hid, deviceName_ok hn, deviceAddress_ok ha, hmac, hbound, fun hb => ⟨hunbound hb, ?_⟩⟩,
    by simpa [Device.keys] using ⟨hseen, hident⟩⟩
  exact hab.resolve_right (by simp_all)

end Policy

/-- The JSON form a stored device is read back from. -/
def Device.raw (device : Device) : RawDevice where
  id := device.id
  route := some device.route
  bindMac := some device.bindMac
  name := .value device.name
  address := .ofOption device.address
  mac := .ofOption device.mac

def Country.raw (country : Country) : RawCountry := .entry country.code (some country.route)

def Site.raw (site : Site) : RawSite := ⟨site.id, .value site.pattern, some site.route⟩

def Settings.raw (settings : Settings) : RawSettings where
  language := .value settings.language
  standaloneAccess := .value settings.standaloneAccess
  localRules := .value settings.localRules
  localScope := .value settings.localScope
  clientRules := .value settings.clientRules
  killSwitch := .value settings.killSwitch
  darkStyle := .value settings.darkStyle
  darkCharts := .value settings.darkCharts
  plainHeadings := .value settings.plainHeadings
  hideRouterStatus := .value settings.hideRouterStatus
  theme := .value settings.theme

def Policy.raw (policy : Policy) : RawPolicy where
  settings := .value policy.settings.raw
  countries := .value (policy.countries.map Country.raw)
  devices := .value (policy.devices.map Device.raw)
  sites := .value (policy.sites.map Site.raw)

namespace Policy
variable {device : Device} {site : Site} {policy : Policy}

theorem deviceAddress_raw (h : device.Ok inet) :
    deviceAddress inet (.ofOption device.address) = .ok device.address := by
  cases ha : device.address with
  | none => simp [deviceAddress]
  | some a =>
    have hn := h.address a ha
    obtain ⟨c, w, rfl⟩ := List.exists_cons_of_ne_nil (normalizeAddress_ne_nil hn)
    simp [deviceAddress, hn]

theorem normalizeMac_ne_nil {m a : Text} (h : normalizeMac m = .ok a) : m ≠ [] := by
  rintro rfl
  exact absurd (normalizeMac_eq_ok.1 h).1 (by decide)

theorem boundMac_raw (resolveMac : Text → Option Text) (h : device.Ok inet) :
    boundMac inet resolveMac device.bindMac (.ofOption device.mac) device.address =
      .ok device.mac := by
  by_cases hb : device.bindMac
  · obtain ⟨m, hm⟩ := Option.ne_none_iff_exists'.1 (h.bound hb)
    have hn := h.mac m hm
    obtain ⟨c, w, rfl⟩ := List.exists_cons_of_ne_nil (normalizeMac_ne_nil hn)
    simp [boundMac, hb, hm, deviceMac, hn]
  · have := (h.unbound (by simpa using hb)).1
    simp [boundMac, hb, this]

/-- A stored device passes its own check and is unchanged by it. -/
theorem checkDevice_raw (h : device.Ok inet) (hs : (device.keys inet).Disjoint seen) :
    checkDevice inet resolveMac seen device.raw = .ok device := by
  have hseen : RuleKey.id device.id ∉ seen ∧ RuleKey.identity (device.identity inet) ∉ seen := by
    simpa [Device.keys] using hs
  have hname : deviceName (.value device.name) = .ok device.name := by
    simp [deviceName, h.name]
  have haddr := deviceAddress_raw h
  have hmac := boundMac_raw resolveMac h
  have hsome : device.address ≠ none ∨ device.bindMac = true := by
    by_cases hb : device.bindMac
    · exact Or.inr hb
    · exact Or.inl (h.unbound (by simpa using hb)).2
  rw [Device.raw]
  simp only [checkDevice, bind_eq_ok, require_eq_ok, pure_eq_ok]
  exact ⟨(), ⟨h.id, hseen.1⟩, (), by simp, _, hname, _, haddr, (), hsome, _, hmac, (), hseen.2, rfl⟩

theorem checkSite_ok {item : RawSite} (h : checkSite seen item = .ok site) :
    site.Ok ∧ site.keys.Disjoint seen := by
  obtain ⟨id, pattern, _ | route⟩ := item
  · simp [checkSite] at h
  simp only [checkSite, bind_eq_ok, require_eq_ok, pure_eq_ok] at h
  obtain ⟨-, ⟨hid, hseen⟩, p, hp, -, hident, rfl⟩ := h
  exact ⟨⟨hid, normalizeSite_shape hp⟩, by simpa [Site.keys] using ⟨hseen, hident⟩⟩

theorem checkSite_raw (h : site.Ok) (hs : site.keys.Disjoint seen) :
    checkSite seen site.raw = .ok site := by
  have hseen : RuleKey.id site.id ∉ seen ∧
      RuleKey.identity ("site:".toList ++ site.pattern) ∉ seen := by simpa [Site.keys] using hs
  rw [Site.raw]
  simp only [checkSite, bind_eq_ok, require_eq_ok, pure_eq_ok]
  exact ⟨(), ⟨h.id, hseen.1⟩, _, normalizeSite_sitePattern h.pattern, (), hseen.2, rfl⟩

theorem checkSettings_raw (settings : Settings) : checkSettings settings.raw = .ok settings := rfl

theorem listOf_ok {α : Type} {f : Field (List α)} {n : ℕ} {l : List α} (h : listOf f n = .ok l) :
    l.length ≤ n := by
  cases f with
  | missing => cases h; simp
  | invalid => cases h
  | value w =>
    by_cases hw : w.length ≤ n
    · rw [listOf, if_pos hw] at h
      cases h
      exact hw
    · rw [listOf, if_neg hw] at h
      cases h

theorem listOf_value {α : Type} {n : ℕ} {l : List α} (h : l.length ≤ n) :
    listOf (.value l) n = .ok l := by simp [listOf, h]

/-- What `validate_settings` returns satisfies the policy invariant. -/
theorem validateSettings_ok {payload : RawPolicy}
    (h : validateSettings inet resolveMac payload = .ok policy) : policy.Ok inet := by
  obtain ⟨raw, countries, devices, sites⟩ := payload
  cases raw with
  | missing => simp [validateSettings] at h
  | invalid => simp [validateSettings] at h
  | value raw =>
    simp only [validateSettings, bind_eq_ok, pure_eq_ok] at h
    obtain ⟨s, -, rc, hrc, rd, hrd, rs, hrs, c, hc, d, hd, w, hw, rfl⟩ := h
    exact {
      countries := scanned_of_scan (fun _ _ _ => checkCountry_ok) hc
      countries_le := scan_length hc ▸ listOf_ok hrc
      devices := scanned_of_scan (fun _ _ _ => checkDevice_ok) hd
      devices_le := scan_length hd ▸ listOf_ok hrd
      sites := scanned_of_scan (fun _ _ _ => checkSite_ok) hw
      sites_le := scan_length hw ▸ listOf_ok hrs }

/-- A policy that satisfies the invariant validates to itself, whatever the neighbour table. -/
theorem validateSettings_raw (resolveMac : Text → Option Text) (h : policy.Ok inet) :
    validateSettings inet resolveMac policy.raw = .ok policy := by
  have hc : scan (fun country : Country => [country.code]) checkCountry []
      (policy.countries.map Country.raw) = .ok policy.countries := by
    refine scan_of_scanned (fun s c hin hs => ?_) h.countries
    have : c.code ∉ s := by simpa using hs
    simp [Country.raw, checkCountry, hin, this]
  have hd : scan (Device.keys inet) (checkDevice inet resolveMac) []
      (policy.devices.map Device.raw) = .ok policy.devices :=
    scan_of_scanned (fun _ _ => checkDevice_raw) h.devices
  have hs : scan Site.keys checkSite (seenAfter (Device.keys inet) [] policy.devices)
      (policy.sites.map Site.raw) = .ok policy.sites :=
    scan_of_scanned (fun _ _ => checkSite_raw) h.sites
  simp only [validateSettings, Policy.raw, bind_eq_ok, pure_eq_ok]
  exact ⟨_, checkSettings_raw policy.settings, _, listOf_value (by simpa using h.countries_le),
    _, listOf_value (by simpa using h.devices_le), _, listOf_value (by simpa using h.sites_le),
    _, hc, _, hd, _, hs, rfl⟩

end Policy
end Foxhole
