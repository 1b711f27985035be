import Foxhole.Lib.Prefixes
import Foxhole.RoutingRefinement

/-! What an address rule denotes, and what the address functions have to do with it. -/
namespace Foxhole.Address
open Check Text Policy Prefixes

variable {inet : Inet} {v r a : Text} {b : IpBytes} {xs ys : List ℕ} {bits x y : ℕ}
  {info target : Info}

/-- An address as a number. -/
def number (b : IpBytes) : ℕ := value b.bytes

/-- The addresses a rule stands for: those of its family that begin with its prefix. -/
def denoted (inet : Inet) (v : Text) : Set IpBytes :=
  {b | ∃ info, addressData inet v = some info ∧ b.width = info.bytes.width ∧
    number b ∈ block info.bytes.width info.prefixLen (number info.bytes)}

/-! The bits of a byte. -/

theorem and_mask : ∀ s < 9, ∀ x < 256, x &&& ((0xff <<< s) &&& 0xff) = x / 2 ^ s * 2 ^ s := by
  decide +kernel

theorem div_mul_eq_iff {s : ℕ} : x / 2 ^ s * 2 ^ s = y / 2 ^ s * 2 ^ s ↔ x / 2 ^ s = y / 2 ^ s :=
  ⟨fun h => Nat.eq_of_mul_eq_mul_right (Nat.two_pow_pos s) h, fun h => by rw [h]⟩

theorem masked_byte (hx : x < 256) (hy : y < 256) :
    x &&& (if min bits 8 = 8 then 0xff else (0xff <<< (8 - min bits 8)) &&& 0xff) =
      y &&& (if min bits 8 = 8 then 0xff else (0xff <<< (8 - min bits 8)) &&& 0xff) ↔
      x / 2 ^ (8 - min bits 8) = y / 2 ^ (8 - min bits 8) := by
  have hmask : (if min bits 8 = 8 then 0xff else (0xff <<< (8 - min bits 8)) &&& 0xff) =
      (0xff <<< (8 - min bits 8)) &&& 0xff := by
    split
    · rename_i h
      rw [h]
      rfl
    · rfl
  rw [hmask, and_mask _ (by omega) x hx, and_mask _ (by omega) y hy, div_mul_eq_iff]

/-- The loop of `address_matches` compares the numbers behind the rest of the bits. -/
theorem sameBits_iff_value (hlen : xs.length = ys.length) (hxs : ∀ x ∈ xs, x < 256)
    (hys : ∀ y ∈ ys, y < 256) (hbits : bits ≤ 8 * xs.length) :
    sameBits bits xs ys = true ↔
      value xs / 2 ^ (8 * xs.length - bits) = value ys / 2 ^ (8 * xs.length - bits) := by
  induction xs generalizing bits ys with
  | nil =>
    obtain rfl := List.length_eq_zero_iff.1 hlen.symm
    simp [sameBits]
  | cons x xs ih =>
    cases ys with
    | nil => simp at hlen
    | cons y ys =>
      have hlen' : xs.length = ys.length := by simpa using hlen
      have hx := hxs x List.mem_cons_self
      have hy := hys y List.mem_cons_self
      have hxs' := fun c hc => hxs c (List.mem_cons_of_mem x hc)
      have hys' := fun c hc => hys c (List.mem_cons_of_mem y hc)
      rw [List.length_cons, Nat.mul_add] at hbits ⊢
      unfold sameBits
      by_cases hzero : bits = 0
      · have hvx := value_lt hxs
        have hvy := value_lt hys
        rw [List.length_cons, Nat.mul_add] at hvx hvy
        rw [← hlen'] at hvy
        simp [hzero, Nat.div_eq_of_lt hvx, Nat.div_eq_of_lt hvy]
      · simp only [hzero, if_false, Bool.and_eq_true, beq_iff_eq]
        rw [masked_byte hx hy, ih hlen' hxs' hys' (by omega)]
        by_cases hfull : 8 ≤ bits
        · have hmin : min bits 8 = 8 := by omega
          have hs : 8 * xs.length + 8 * 1 - bits = 8 * xs.length - (bits - 8) := by omega
          have htx := value_tail_lt (s := 8 * xs.length - (bits - 8)) (by omega) hxs'
          have hty := value_tail_lt (s := 8 * xs.length - (bits - 8)) (l := ys) (by omega) hys'
          rw [← hlen'] at hty
          rw [hmin, hs, value_cons_div_tail (by omega), value_cons_div_tail (by omega), ← hlen',
            Nat.sub_self, Nat.pow_zero, Nat.div_one, Nat.div_one]
          constructor
          · rintro ⟨rfl, h⟩
            rw [h]
          · intro h
            have hpos := Nat.two_pow_pos (8 * xs.length - (8 * xs.length - (bits - 8)))
            have hdiv := congrArg (· / 2 ^ (8 * xs.length - (8 * xs.length - (bits - 8)))) h
            simp only [Nat.mul_comm _ (2 ^ (8 * xs.length - (8 * xs.length - (bits - 8)))),
              Nat.mul_add_div hpos, Nat.div_eq_of_lt htx, Nat.div_eq_of_lt hty,
              Nat.add_zero] at hdiv
            subst hdiv
            exact ⟨rfl, by omega⟩
        · have hmin : min bits 8 = bits := by omega
          have hs : 8 * xs.length + 8 * 1 - bits = 8 * xs.length + (8 - bits) := by omega
          have hdone : 8 * xs.length - (bits - bits) = 8 * xs.length := by omega
          have hvx := value_lt hxs'
          have hvy := value_lt hys'
          rw [← hlen'] at hvy
          rw [hmin, hs, hdone, value_cons_div_head hxs', hlen', value_cons_div_head hys', ← hlen',
            Nat.div_eq_of_lt hvx, Nat.div_eq_of_lt hvy]
          exact and_iff_left rfl

/-! Rules as sets. -/

theorem number_lt (b : IpBytes) : number b < 2 ^ b.width := by
  rw [IpBytes.width, Nat.mul_comm]
  exact value_lt b.lt

theorem number_inj {b c : IpBytes} (hw : b.width = c.width) (h : number b = number c) : b = c :=
  IpBytes.ext (value_inj b.lt c.lt (IpBytes.width_eq_iff.1 hw) h)

theorem exists_number (b : IpBytes) {n : ℕ} (hn : n < 2 ^ b.width) :
    ∃ c : IpBytes, c.width = b.width ∧ number c = n := by
  rw [IpBytes.width, Nat.mul_comm] at hn
  obtain ⟨l, hlen, hl, hval⟩ := exists_value b.bytes.length hn
  exact ⟨⟨l, hlen ▸ b.length_eq, hl⟩, by simp [IpBytes.width, hlen], hval⟩

theorem mem_denoted (hv : addressData inet v = some info) : b ∈ denoted inet v ↔
    b.width = info.bytes.width ∧
      number b ∈ block info.bytes.width info.prefixLen (number info.bytes) := by
  constructor
  · rintro ⟨other, hother, h⟩
    obtain rfl := Option.some.inj (hv.symm.trans hother)
    exact h
  · exact fun h => ⟨info, hv, h⟩

theorem self_mem_denoted (hv : addressData inet v = some info) : info.bytes ∈ denoted inet v :=
  (mem_denoted hv).2 ⟨rfl, self_mem_block (number_lt _)⟩

/-- Sets of addresses of one family compare as blocks of numbers. -/
theorem denoted_subset_iff (hv : addressData inet v = some info)
    (hr : addressData inet r = some target) : denoted inet v ⊆ denoted inet r ↔
      info.bytes.width = target.bytes.width ∧
        block info.bytes.width info.prefixLen (number info.bytes) ⊆
          block target.bytes.width target.prefixLen (number target.bytes) := by
  constructor
  · intro hsub
    have hwidth := ((mem_denoted hr).1 (hsub (self_mem_denoted hv))).1
    refine ⟨hwidth, fun n hn => ?_⟩
    obtain ⟨c, hc, rfl⟩ := exists_number info.bytes hn.1
    exact ((mem_denoted hr).1 (hsub ((mem_denoted hv).2 ⟨hc, hn⟩))).2
  · rintro ⟨hwidth, hsub⟩ b hb
    obtain ⟨hbw, hb⟩ := (mem_denoted hv).1 hb
    exact (mem_denoted hr).2 ⟨hbw.trans hwidth, hsub hb⟩

theorem addressMatches_iff (hv : addressData inet v = some info)
    (hr : addressData inet r = some target) :
    addressMatches inet v r = true ↔ denoted inet v ⊆ denoted inet r := by
  have hunfold : addressMatches inet v r = true ↔ info.bytes.width = target.bytes.width ∧
      target.prefixLen ≤ info.prefixLen ∧
        sameBits target.prefixLen info.bytes.bytes target.bytes.bytes = true := by
    simp only [addressMatches, hv, hr, Bool.and_eq_true, decide_eq_true_eq, and_assoc]
  rw [hunfold, denoted_subset_iff hv hr]
  refine and_congr_right fun hwidth => ?_
  have hlen : info.bytes.bytes.length = target.bytes.bytes.length := IpBytes.width_eq_iff.1 hwidth
  have hw : 8 * info.bytes.bytes.length = target.bytes.width := by
    rw [← hwidth, IpBytes.width, Nat.mul_comm]
  have htarget : target.prefixLen ≤ 8 * info.bytes.bytes.length := by
    rw [hw]
    exact target.prefix_le
  rw [sameBits_iff_value hlen info.bytes.lt target.bytes.lt htarget, hw, hwidth,
    block_subset_iff (hwidth ▸ info.prefix_le) target.prefix_le (hwidth ▸ number_lt _)]
  rfl

/-- Masking leaves the bits of the prefix. -/
theorem number_masked (info : Info) :
    number info.masked.bytes / 2 ^ (info.bytes.width - info.prefixLen) =
    number info.bytes / 2 ^ (info.bytes.width - info.prefixLen) := by
  have hlen : info.masked.bytes.bytes.length = info.bytes.bytes.length := by
    simp [Info.masked, maskBytes]
  have hw : 8 * info.masked.bytes.bytes.length = info.bytes.width := by
    rw [hlen, IpBytes.width, Nat.mul_comm]
  have hsame : sameBits info.prefixLen info.masked.bytes.bytes info.bytes.bytes = true :=
    (sameBits_iff hlen info.masked.bytes.lt info.bytes.lt).2
      (congrArg IpBytes.bytes (maskBytes_maskBytes (n := info.prefixLen) (b := info.bytes)))
  have hle : info.prefixLen ≤ 8 * info.masked.bytes.bytes.length := by
    rw [hw]
    exact info.prefix_le
  rw [sameBits_iff_value hlen info.masked.bytes.lt info.bytes.lt hle, hw] at hsame
  exact hsame

/-- Normalising a rule does not change what it stands for. -/
theorem denoted_normalizeAddress (h : normalizeAddress inet v = .ok a) :
    denoted inet a = denoted inet v := by
  obtain ⟨info, hv, -, rfl⟩ := normalizeAddress_eq_ok.1 h
  have ha := @addressData_canonicalAddress inet info
  have hwidth : info.masked.bytes.width = info.bytes.width := maskBytes_width
  ext b
  rw [mem_denoted ha, mem_denoted hv, hwidth, mem_block, mem_block]
  have hbits : info.masked.prefixLen = info.prefixLen := rfl
  rw [hbits, number_masked]

theorem normalizeAddress_accepted (h : normalizeAddress inet v = .ok a) :
    (∃ info, addressData inet v = some info) ∧ ∃ info, addressData inet a = some info := by
  obtain ⟨info, hv, -, rfl⟩ := normalizeAddress_eq_ok.1 h
  exact ⟨⟨info, hv⟩, info.masked, addressData_canonicalAddress info⟩

/-! The rules of a policy. -/

/-- Rules in normal form that stand for the same addresses identify a device in the same way. -/
theorem identity_of_denoted {a c : Text} (ha : normalizeAddress inet a = .ok a)
    (hc : normalizeAddress inet c = .ok c) (h : denoted inet a = denoted inet c) :
    (hostAddress inet a).getD a = (hostAddress inet c).getD c := by
  obtain ⟨info, hia, -, hinfo⟩ := normalizeAddress_eq_ok.1 ha
  obtain ⟨target, htc, -, htarget⟩ := normalizeAddress_eq_ok.1 hc
  obtain ⟨hwidth, hsub⟩ := (denoted_subset_iff hia htc).1 (le_of_eq h)
  obtain ⟨-, hsub'⟩ := (denoted_subset_iff htc hia).1 (le_of_eq h.symm)
  have hblock := Set.Subset.antisymm hsub hsub'
  rw [← hwidth] at hblock
  have htle : target.prefixLen ≤ info.bytes.width := hwidth ▸ target.prefix_le
  have htlt : number target.bytes < 2 ^ info.bytes.width := hwidth ▸ number_lt _
  obtain ⟨hbits, hdiv⟩ := (block_eq_iff info.prefix_le htle (number_lt _) htlt).1 hblock
  have hhost : info.IsHost ↔ target.IsHost := by
    rw [Info.IsHost, Info.IsHost, hbits, hwidth]
  by_cases hi : info.IsHost
  · have ht := hhost.1 hi
    have hbytes : info.bytes = target.bytes := by
      refine number_inj hwidth ?_
      rw [Info.IsHost] at ht
      rw [ht, ← hwidth, Nat.sub_self, Nat.pow_zero, Nat.div_one, Nat.div_one] at hdiv
      exact hdiv
    simp only [hostAddress, hia, htc, hi, ht, if_true, Option.getD_some, hbytes]
  · have ht : ¬ target.IsHost := fun ht => hi (hhost.2 ht)
    have hmasked : maskBytes info.prefixLen info.bytes = maskBytes target.prefixLen
        target.bytes := by
      have hlen : info.bytes.bytes.length = target.bytes.bytes.length :=
        IpBytes.width_eq_iff.1 hwidth
      have hw : 8 * info.bytes.bytes.length = info.bytes.width := by
        rw [IpBytes.width, Nat.mul_comm]
      have hle : target.prefixLen ≤ 8 * info.bytes.bytes.length := by
        rw [hw]
        exact htle
      rw [← hw] at hdiv
      have hsame := (sameBits_iff_value hlen info.bytes.lt target.bytes.lt hle).2 hdiv
      rw [hbits]
      exact IpBytes.ext ((sameBits_iff hlen info.bytes.lt target.bytes.lt).1 hsame)
    have hexp : ∀ info : Info, ¬ info.IsHost → info.explicit = true := by
      intro info hi
      by_contra hne
      exact hi (info.whole (by simpa using hne))
    simp only [hostAddress, hia, htc, hi, ht, if_false, Option.getD_none]
    rw [← hinfo, ← htarget, canonicalAddress, canonicalAddress, hexp info hi,
      hexp target ht, hmasked,
      hbits]

/-- Two devices of one policy: unbound ones stand for different addresses, bound ones have
different MACs. -/
def Apart (inet : Inet) (a b : Device) : Prop :=
  (a.bindMac = false → b.bindMac = false →
    ∀ x ∈ a.address, ∀ y ∈ b.address, denoted inet x ≠ denoted inet y) ∧
  (a.bindMac = true → b.bindMac = true → ∀ x ∈ a.mac, ∀ y ∈ b.mac, x ≠ y)

/-- A stored device is bound, unbound and addressed as it was in the payload. -/
def StoredFrom (inet : Inet) (item : RawDevice) (device : Device) : Prop :=
  item.bindMac = some device.bindMac ∧
  (device.bindMac = true → ∃ mac, device.mac = some mac ∧
    ∀ given, item.mac = .value given → given ≠ [] → normalizeMac given = .ok mac) ∧
  (device.bindMac = false → ∃ given address, item.address = .value given ∧
    device.address = some address ∧ denoted inet address = denoted inet given)

theorem apart_of_identity {a b : Device} (ha : a.Ok inet) (hb : b.Ok inet)
    (h : a.identity inet ≠ b.identity inet) : Apart inet a b := by
  constructor
  · intro hua hub x hx y hy hden
    apply h
    have hident := identity_of_denoted (ha.address x hx) (hb.address y hy) hden
    rw [Option.mem_def] at hx hy
    have hform : ∀ t : Text, (((some t).bind (hostAddress inet)).or (some t)).getD [] =
        (hostAddress inet t).getD t := by
      intro t
      cases ht : hostAddress inet t with
      | none => simp [ht]
      | some host => simp [ht]
    simp only [Device.identity, hua, hub, hx, hy, Bool.false_eq_true, if_false]
    rw [hform, hform, hident]
  · intro hba hbb x hx y hy hxy
    apply h
    rw [Option.mem_def] at hx hy
    simp [Device.identity, hba, hbb, hx, hy, hxy]

theorem storedFrom_of_check {resolveMac : Text → Option Text} {seen : List RuleKey}
    {item : RawDevice} {device : Device}
    (h : checkDevice inet resolveMac seen item = .ok device) : StoredFrom inet item device := by
  have hok := (checkDevice_ok h).1
  obtain ⟨id, route, bindMac, preventLeak, name, address, mac⟩ := item
  rcases route with _ | route
  · simp [checkDevice] at h
  rcases bindMac with _ | bindMac
  · simp [checkDevice] at h
  simp only [checkDevice, bind_eq_ok, require_eq_ok, pure_eq_ok] at h
  obtain ⟨-, -, -, -, n, -, a, ha, -, -, m, hm, -, -, rfl⟩ := h
  refine ⟨rfl, fun hb => ?_, fun hb => ?_⟩
  · obtain ⟨stored, hstored⟩ := Option.ne_none_iff_exists'.1 (hok.bound hb)
    refine ⟨stored, hstored, fun given hgiven hne => ?_⟩
    obtain ⟨c, w, rfl⟩ := List.exists_cons_of_ne_nil hne
    change m = some stored at hstored
    change bindMac = true at hb
    change mac = _ at hgiven
    simp only [boundMac, hb, if_true, hgiven, deviceMac, map_eq_ok] at hm
    obtain ⟨mac', hmac, hsome⟩ := hm
    rw [hstored] at hsome
    exact Option.some.inj hsome ▸ hmac
  · have hne := (hok.unbound hb).2
    change a ≠ none at hne
    cases address with
    | missing => simp_all [deviceAddress]
    | invalid => simp_all [deviceAddress]
    | value given =>
      cases given with
      | nil => simp_all [deviceAddress]
      | cons c w =>
        simp only [deviceAddress, map_eq_ok] at ha
        obtain ⟨address, hn, rfl⟩ := ha
        exact ⟨c :: w, address, rfl, rfl, denoted_normalizeAddress hn⟩

theorem devices_apart {devices : List Device} {seen : List RuleKey}
    (h : Scanned (Device.keys inet) (fun _ device => device.Ok inet) seen devices) :
    devices.Pairwise (Apart inet) := by
  have hok := h.forall_mem (Q := fun device => device.Ok inet) fun _ _ hd => hd
  have hnodup : (devices.map (Device.identity inet)).Nodup :=
    h.nodup_map (k := RuleKey.identity) fun b => by simp [Device.keys]
  refine (List.pairwise_map.1 hnodup).imp_of_mem ?_
  intro a b ha hb hne
  exact apart_of_identity (hok a ha) (hok b hb) hne

/-- The laws of address rules: matching is inclusion of what the rules stand for, normal forms
stand for the same and are normal, and a policy names no addresses and no MAC twice. -/
theorem address_laws (inet : Inet) :
    (∀ v r info target, addressData inet v = some info → addressData inet r = some target →
      (addressMatches inet v r = true ↔ denoted inet v ⊆ denoted inet r)) ∧
    (∀ v r a, normalizeAddress inet v = .ok a →
      addressMatches inet a r = addressMatches inet v r ∧
      addressMatches inet r a = addressMatches inet r v) ∧
    (∀ v a, normalizeAddress inet v = .ok a → normalizeAddress inet a = .ok a) ∧
    (∀ resolveMac payload policy, validateSettings inet resolveMac payload = .ok policy →
      policy.devices.Pairwise (Apart inet) ∧
      ∀ items, payload.devices = .value items →
        List.Forall₂ (StoredFrom inet) items policy.devices) := by
  refine ⟨fun v r info target hv hr => addressMatches_iff hv hr, ?_,
    fun v a h => normalizeAddress_normalized h, ?_⟩
  · intro v r a h
    obtain ⟨⟨info, hv⟩, ⟨ainfo, ha⟩⟩ := normalizeAddress_accepted h
    have hden := denoted_normalizeAddress h
    cases hr : addressData inet r with
    | none => simp [addressMatches, hr, hv, ha]
    | some target =>
      constructor
      · rw [Bool.eq_iff_iff, addressMatches_iff ha hr, addressMatches_iff hv hr, hden]
      · rw [Bool.eq_iff_iff, addressMatches_iff hr ha, addressMatches_iff hr hv, hden]
  · intro resolveMac payload policy h
    unfold validateSettings at h
    split at h
    · simp only [bind_eq_ok, pure_eq_ok] at h
      obtain ⟨settings, -, countries, -, devices, hlist, sites, -, _, -, checked, hdev,
        _, -, rfl⟩ := h
      have hscanned : Scanned (Device.keys inet) (fun _ device => device.Ok inet) [] checked :=
        scanned_of_scan (fun _ _ _ hd => checkDevice_ok hd) hdev
      refine ⟨devices_apart hscanned, fun items hitems => ?_⟩
      have hitems' : devices = items := by
        rw [hitems] at hlist
        simp only [listOf] at hlist
        by_cases hle : items.length ≤ 512
        · rw [if_pos hle] at hlist
          exact (Except.ok.inj hlist).symm
        · rw [if_neg hle] at hlist
          cases hlist
      subst hitems'
      refine (scan_forall₂ hdev).imp ?_
      rintro _ _ ⟨_, hd⟩
      exact storedFrom_of_check hd
    · cases h

/-- A network, a host inside it, and a phone bound to its MAC. -/
def ruledDevices : List RawDevice :=
  [⟨"device-000000000001".toList, some .vpn, some false, .missing, .value "office".toList,
      .value "10.9.9.9/8".toList, .missing⟩,
    ⟨"device-000000000002".toList, some .direct, some false, .missing, .value "printer".toList,
      .value "10.1.2.3/32".toList, .missing⟩,
    ⟨"device-000000000003".toList, some .vpn, some true, .missing, .value "phone".toList,
      .missing, .value "02:00:00:00:00:0A".toList⟩]

def ruledPolicy : RawPolicy := ⟨.value {}, .missing, .value ruledDevices, .missing⟩

/-- The host lies inside the network in either spelling, and the policy takes all three. -/
theorem address_laws_net : (denoted decimalInet "10.1.2.3/32".toList ⊆
      denoted decimalInet "10.9.9.9/8".toList ∧
    addressMatches decimalInet "10.1.2.3/32".toList "10.0.0.0/8".toList =
      addressMatches decimalInet "10.1.2.3/32".toList "10.9.9.9/8".toList ∧
    normalizeAddress decimalInet "10.0.0.0/8".toList = .ok "10.0.0.0/8".toList) ∧
    ∃ policy, validateSettings decimalInet (fun _ => none) ruledPolicy = .ok policy ∧
      policy.devices.length = 3 ∧ policy.devices.Pairwise (Apart decimalInet) := by
  have hv : (addressData decimalInet "10.1.2.3/32".toList).isSome = true := by decide
  have hr : (addressData decimalInet "10.9.9.9/8".toList).isSome = true := by decide
  have hnormal : normalizeAddress decimalInet "10.9.9.9/8".toList = .ok "10.0.0.0/8".toList := by
    decide
  have hpolicy : Succeeds (validateSettings decimalInet (fun _ => none) ruledPolicy) := by decide
  obtain ⟨info, hinfo⟩ := Option.isSome_iff_exists.1 hv
  obtain ⟨target, htarget⟩ := Option.isSome_iff_exists.1 hr
  obtain ⟨policy, hvalid⟩ := hpolicy
  obtain ⟨hmatches, hspelling, hagain, haccepted⟩ := address_laws decimalInet
  obtain ⟨hapart, hstored⟩ := haccepted _ _ policy hvalid
  exact ⟨⟨(hmatches _ _ info target hinfo htarget).1 (by decide),
    (hspelling _ "10.1.2.3/32".toList _ hnormal).2, hagain _ _ hnormal⟩, policy, hvalid,
    (hstored _ rfl).length_eq.symm, hapart⟩

end Foxhole.Address
