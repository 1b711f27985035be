import Foxhole.Lib.Keyed
import Foxhole.Listeners

/-! A phone that provisions again gets what it has, wherever its last try stopped. -/
namespace Foxhole.Rpc
open Check Text Address Trace

variable {env : Env} {intentDigest : Mobile.Intent → Text} {out : Outside} {disk disk' : Disk}
  {state state' : State} {phone other : Mobile.Phone} {paired : Pairing.Session} {changed : Bool}

/-! The LAN devices and clients of a state that `mobile.apply` has brought up to a phone. -/

/-- A host address is its own normal form. -/
theorem normalizeAddress_host {inet : Inet} {a b : Text} (hh : hostAddress inet a = some a)
    (h : normalizeAddress inet a = .ok b) : b = a := by
  obtain ⟨info, hinfo, -, rfl⟩ := normalizeAddress_eq_ok.1 h
  simp only [hostAddress, hinfo] at hh
  split at hh
  · rename_i hhost
    have ha : inet.arrtoip info.bytes = a := Option.some.inj hh
    -- what is printed without a prefix reads back as a single address
    let plain : Info := ⟨info.bytes, info.bytes.width, false, le_rfl, fun _ => rfl⟩
    have hprint : canonicalAddress inet plain = a := by
      simp [canonicalAddress, plain, maskBytes_width_self, ha]
    have hread := @addressData_canonicalAddress inet plain
    rw [hprint, hinfo] at hread
    rw [Option.some.inj hread, canonicalAddress_masked, hprint]
  · cases hh

/-- The device of a valid phone keeps its address and its MAC when it is checked. -/
theorem checkDevice_phone {id : Text} {seen : List RuleKey} {device : Device}
    (hphone : Mobile.validPhone env phone = true)
    (h : Policy.checkDevice env.inet (fun _ => none) seen (Mobile.device phone id).raw =
      .ok device) :
    device.id = id ∧ Mobile.sameDevice phone device := by
  simp only [Mobile.validPhone, Bool.and_eq_true, decide_eq_true_eq] at hphone
  obtain ⟨⟨⟨-, hhost⟩, hmac⟩, -⟩ := hphone
  have hmac' : normalizeMac phone.mac = .ok phone.mac := by
    cases hm : normalizeMac phone.mac with
    | error e => simp [hm, Except.toOption] at hmac
    | ok m =>
      simp only [hm, Except.toOption, Option.some.injEq] at hmac
      rw [hmac]
  obtain ⟨c, w, hcw⟩ := List.exists_cons_of_ne_nil (Policy.normalizeMac_ne_nil hmac')
  obtain ⟨d, v, hdv⟩ := List.exists_cons_of_ne_nil (hostAddress_ne_nil hhost)
  simp only [Device.raw, Mobile.device, Policy.checkDevice, bind_eq_ok, pure_eq_ok] at h
  obtain ⟨-, -, -, -, name, -, address, haddress, -, -, mac, hm, -, -, rfl⟩ := h
  simp only [Field.ofOption_some, hdv, Policy.deviceAddress, map_eq_ok] at haddress
  obtain ⟨a, ha, rfl⟩ := haddress
  simp only [Field.ofOption_some, Policy.boundMac, if_true, hcw, Policy.deviceMac, map_eq_ok] at hm
  obtain ⟨m, hm, rfl⟩ := hm
  rw [← hcw, hmac'] at hm
  rw [← hdv] at ha
  cases hm
  exact ⟨rfl, rfl, by rw [normalizeAddress_host hhost ha], rfl, rfl⟩

/-- The devices of a written state are those it was written from, each in its checked form. -/
theorem validateState_devices (h : Model.validateState env state.raw = .ok state') :
    scan (Device.keys env.inet) (Policy.checkDevice env.inet (fun _ => none)) []
      (state.devices.map Device.raw) = .ok state'.devices := by
  simp only [Model.validateState, bind_eq_ok, require_eq_ok, pure_eq_ok] at h
  obtain ⟨-, -, rev, -, -, -, -, -, policy, hpolicy, servers, -, clients, -, vs, -,
    active, -, cs, -,
    rfl⟩ := h
  simp only [State.raw, Policy.raw, Policy.validateSettings, bind_eq_ok, pure_eq_ok] at hpolicy
  obtain ⟨s, -, rc, -, rd, hrd, rs, -, c, -, d, hd, w, -, rfl⟩ := hpolicy
  simp only [Policy.listOf] at hrd
  split at hrd <;> cases hrd
  exact hd

/-- `mobile.apply` on an accepted state: at most the phone's device is new. -/
theorem apply_devices (hok : state.Ok env) (hphone : Mobile.validPhone env phone = true)
    (h : Mobile.apply env state phone = .ok (state', changed)) :
    (∀ id ∈ phone.lanDeviceId, ∀ device ∈ state.devices, device.id = id →
      Mobile.sameDevice phone device) ∧
    ((state'.devices = state.devices ∧
        ∀ id ∈ phone.lanDeviceId, ∃ device ∈ state.devices, device.id = id) ∨
      ∃ id device, changed = true ∧ phone.lanDeviceId = some id ∧ (∀ d ∈ state.devices, d.id ≠ id) ∧
        state'.devices = state.devices ++ [device] ∧ device.id = id ∧
        Mobile.sameDevice phone device) := by
  simp only [Mobile.apply, bind_eq_ok, pure_eq_ok] at h
  obtain ⟨s₀, h₀, ⟨s₁, new⟩, h₁, ⟨s₂, c⟩, h₂, s₃, h₃, he⟩ := h
  cases he
  obtain rfl : state = s₀ := by
    rw [Model.validateState_raw hok] at h₀
    exact Except.ok.inj h₀
  have hclient : s₂.devices = s₁.devices := by
    unfold Mobile.applyClient at h₂
    split at h₂
    · cases h₂; rfl
    · simp only [bind_eq_ok] at h₂
      obtain ⟨-, -, h₂⟩ := h₂
      split at h₂ <;> cases h₂ <;> rfl
  have hscan : scan (Device.keys env.inet) (Policy.checkDevice env.inet (fun _ => none)) []
      (s₁.devices.map Device.raw) = .ok state'.devices := by
    rw [← hclient]
    have := validateState_devices h₃
    split at this <;> exact this
  have hstored : scan (Device.keys env.inet) (Policy.checkDevice env.inet (fun _ => none)) []
      (state.devices.map Device.raw) = .ok state.devices :=
    scan_of_scanned (fun _ _ hd hs => Policy.checkDevice_raw hd hs) hok.policy.devices
  unfold Mobile.applyDevice at h₁
  split at h₁
  · rename_i hnone
    cases h₁
    rw [hstored] at hscan
    exact ⟨by simp [hnone], Or.inl ⟨(Except.ok.inj hscan).symm, by simp [hnone]⟩⟩
  · rename_i id hid
    simp only [bind_eq_ok, require_eq_ok] at h₁
    obtain ⟨-, hsame, h₁⟩ := h₁
    refine ⟨by simpa [hid] using hsame, ?_⟩
    split at h₁
    · rename_i hany
      cases h₁
      rw [hstored] at hscan
      refine Or.inl ⟨(Except.ok.inj hscan).symm, ?_⟩
      simpa [hid] using hany
    · rename_i hany
      cases h₁
      simp only [Bool.not_eq_true, List.any_eq_false, decide_eq_true_eq] at hany
      rw [List.map_append, scan_append_eq_ok] at hscan
      obtain ⟨cs, ds, hcs, hds, he⟩ := hscan
      rw [hstored] at hcs
      cases hcs
      obtain ⟨device, rest, hdevice, hrest, rfl⟩ := scan_cons_eq_ok.1 hds
      cases hrest
      obtain ⟨hdid, hdsame⟩ := checkDevice_phone hphone hdevice
      exact Or.inr ⟨id, device, rfl, hid, hany, he.symm, hdid, hdsame⟩

theorem applyDevice_clients {new : Bool} (h : Mobile.applyDevice state phone = .ok (state', new)) :
    state'.clients = state.clients := by
  unfold Mobile.applyDevice at h
  split at h
  · cases h; rfl
  · simp only [bind_eq_ok] at h
    obtain ⟨-, -, h⟩ := h
    split at h <;> cases h <;> rfl

/-- As `apply_devices`, for the client. -/
theorem apply_phoneClient (hok : state.Ok env)
    (h : Mobile.apply env state phone = .ok (state', changed)) :
    (∀ id ∈ phone.remoteClientId, ∀ client ∈ state.clients, client.key = id →
      Mobile.sameClient phone client) ∧
    ((state'.clients = state.clients ∧
        ∀ id ∈ phone.remoteClientId, ∃ client ∈ state.clients, client.key = id) ∨
      ∃ id, changed = true ∧ phone.remoteClientId = some id ∧ (∀ c ∈ state.clients, c.key ≠ id) ∧
        state'.clients = state.clients ++ [Mobile.client phone id]) := by
  simp only [Mobile.apply, bind_eq_ok, pure_eq_ok] at h
  obtain ⟨s₀, h₀, ⟨s₁, d⟩, h₁, ⟨s₂, new⟩, h₂, s₃, h₃, he⟩ := h
  cases he
  obtain rfl : state = s₀ := by
    rw [Model.validateState_raw hok] at h₀
    exact Except.ok.inj h₀
  have hdevice := applyDevice_clients h₁
  have hwritten : state'.clients = s₂.clients := by
    have hraw := (validateState_lists h₃).2
    split at hraw <;> simpa [State.raw, eq_comm] using hraw
  rw [hwritten]
  unfold Mobile.applyClient at h₂
  split at h₂
  · rename_i hnone
    cases h₂
    exact ⟨by simp [hnone], Or.inl ⟨hdevice, by simp [hnone]⟩⟩
  · rename_i id hid
    simp only [bind_eq_ok, require_eq_ok, hdevice] at h₂
    obtain ⟨-, hsame, h₂⟩ := h₂
    refine ⟨by simpa [hid] using hsame, ?_⟩
    split at h₂
    · rename_i hany
      cases h₂
      refine Or.inl ⟨hdevice, ?_⟩
      simpa [hid] using hany
    · rename_i hany
      cases h₂
      simp only [Bool.not_eq_true, List.any_eq_false, decide_eq_true_eq] at hany
      exact Or.inr ⟨id, by simp, hid, hany, rfl⟩

theorem apply_ok (h : Mobile.apply env state phone = .ok (state', changed)) : state'.Ok env := by
  simp only [Mobile.apply, bind_eq_ok, pure_eq_ok] at h
  obtain ⟨_, -, _, -, _, -, s, hs, he⟩ := h
  cases he
  exact Model.validateState_ok hs

/-- The state has what the phone asked for, as the journal keeps it. -/
structure Settled (phone : Mobile.Phone) (state : State) : Prop where
  device : ∀ id ∈ phone.lanDeviceId, (∃ device ∈ state.devices, device.id = id) ∧
    ∀ device ∈ state.devices, device.id = id → Mobile.sameDevice phone device
  client : ∀ id ∈ phone.remoteClientId, (∃ client ∈ state.clients, client.key = id) ∧
    ∀ client ∈ state.clients, client.key = id → Mobile.sameClient phone client

/-- Applying a phone settles it. -/
theorem apply_settled (hok : state.Ok env) (hphone : Mobile.validPhone env phone = true)
    (h : Mobile.apply env state phone = .ok (state', changed)) : Settled phone state' := by
  obtain ⟨hsame, hdevices⟩ := apply_devices hok hphone h
  obtain ⟨hsameClient, hclients⟩ := apply_phoneClient hok h
  constructor
  · intro id hid
    rcases hdevices with ⟨he, hex⟩ | ⟨id', device, -, hid', hnew, he, hdevice, hs⟩
    · rw [he]
      exact ⟨hex id hid, hsame id hid⟩
    · obtain rfl : id' = id := Option.some.inj (hid'.symm.trans hid)
      rw [he]
      refine ⟨⟨device, by simp, hdevice⟩, fun d hd hdid => ?_⟩
      rcases List.mem_append.1 hd with hd | hd
      · exact absurd hdid (hnew d hd)
      · rwa [List.mem_singleton.1 hd]
  · intro id hid
    rcases hclients with ⟨he, hex⟩ | ⟨id', -, hid', hnew, he⟩
    · rw [he]
      exact ⟨hex id hid, hsameClient id hid⟩
    · obtain rfl : id' = id := Option.some.inj (hid'.symm.trans hid)
      rw [he]
      refine ⟨⟨Mobile.client phone id', by simp, rfl⟩, fun c hc hkey => ?_⟩
      rcases List.mem_append.1 hc with hc | hc
      · exact absurd hkey (hnew c hc)
      · rw [List.mem_singleton.1 hc]
        refine ⟨rfl, ?_, rfl⟩
        cases hsecret : phone.remoteSecret <;> simp [Mobile.client, hsecret]

/-- Devices and clients of an accepted state are told apart by their identifiers. -/
theorem device_unique (hok : state.Ok env) {a b : Device} (ha : a ∈ state.devices)
    (hb : b ∈ state.devices) (h : a.id = b.id) : a = b :=
  hok.policy.devices.eq_of_mem (k := RuleKey.id a.id) ha hb (by simp [Device.keys])
    (by simp [Device.keys, h])

theorem client_unique (hok : state.Ok env) {a b : Client} (ha : a ∈ state.clients)
    (hb : b ∈ state.clients) (h : a.key = b.key) : a = b :=
  hok.clients.eq_of_mem (k := a.key) ha hb (by simp [Client.keys]) (by simp [Client.keys, h])

/-- Applying another phone leaves a phone settled. -/
theorem Settled.apply (hs : Settled phone state) (hok : state.Ok env)
    (hother : Mobile.validPhone env other = true)
    (h : Mobile.apply env state other = .ok (state', changed)) : Settled phone state' := by
  have hok' := apply_ok h
  have hdevices : ∀ device ∈ state.devices, device ∈ state'.devices := by
    rcases (apply_devices hok hother h).2 with ⟨he, -⟩ | ⟨_, _, -, -, -, he, -⟩ <;> rw [he]
    · exact fun _ hd => hd
    · exact fun _ hd => List.mem_append_left _ hd
  have hclients : ∀ client ∈ state.clients, client ∈ state'.clients := by
    rcases (apply_phoneClient hok h).2 with ⟨he, -⟩ | ⟨_, -, -, -, he⟩ <;> rw [he]
    · exact fun _ hc => hc
    · exact fun _ hc => List.mem_append_left _ hc
  constructor
  · intro id hid
    obtain ⟨⟨device, hdevice, rfl⟩, hsame⟩ := hs.device id hid
    refine ⟨⟨device, hdevices device hdevice, rfl⟩, fun d hd hdid => ?_⟩
    rw [device_unique hok' hd (hdevices device hdevice) hdid]
    exact hsame device hdevice rfl
  · intro id hid
    obtain ⟨⟨client, hclient, rfl⟩, hsame⟩ := hs.client id hid
    refine ⟨⟨client, hclients client hclient, rfl⟩, fun c hc hkey => ?_⟩
    rw [client_unique hok' hc (hclients client hclient) hkey]
    exact hsame client hclient rfl

/-- Applying a settled phone changes nothing. -/
theorem Settled.unchanged (hs : Settled phone state) (hok : state.Ok env) :
    Mobile.apply env state phone = .ok (state, false) := by
  have hvalid := Model.validateState_raw hok
  have hdevice : Mobile.applyDevice state phone = .ok (state, false) := by
    unfold Mobile.applyDevice
    cases hid : phone.lanDeviceId with
    | none => rfl
    | some id =>
      obtain ⟨hex, hsame⟩ := hs.device id hid
      simp only [bind_eq_ok, require_eq_ok]
      refine ⟨(), hsame, ?_⟩
      rw [if_pos (by simpa using hex)]
      rfl
  have hclient : Mobile.applyClient state phone = .ok (state, false) := by
    unfold Mobile.applyClient
    cases hid : phone.remoteClientId with
    | none => rfl
    | some id =>
      obtain ⟨hex, hsame⟩ := hs.client id hid
      simp only [bind_eq_ok, require_eq_ok]
      refine ⟨(), hsame, ?_⟩
      rw [if_pos (by simpa using hex)]
      rfl
  simp only [Mobile.apply, bind_eq_ok, pure_eq_ok]
  exact ⟨state, hvalid, (state, false), hdevice, (state, false), hclient, state, hvalid, rfl⟩

/-- A phone whose application changes nothing was settled before. -/
theorem settled_of_unchanged (hok : state.Ok env) (hphone : Mobile.validPhone env phone = true)
    (h : Mobile.apply env state phone = .ok (state', false)) : Settled phone state := by
  obtain ⟨hsame, hdevices⟩ := apply_devices hok hphone h
  obtain ⟨hsameClient, hclients⟩ := apply_phoneClient hok h
  rcases hdevices with ⟨-, hex⟩ | ⟨_, _, hc, -⟩
  · rcases hclients with ⟨-, hexClient⟩ | ⟨_, hc, -⟩
    · exact ⟨fun id hid => ⟨hex id hid, hsame id hid⟩,
        fun id hid => ⟨hexClient id hid, hsameClient id hid⟩⟩
    · cases hc
  · cases hc

/-! The journal, which keeps the phone of a pairing as long as the pairing is current. -/

/-- The journal has the phone of the pairing, which is current. -/
structure Journalled (paired : Pairing.Session) (phone : Mobile.Phone) (disk : Disk) : Prop where
  mem : phone ∈ disk.mobile
  pair : phone.pairId = paired.id ∧ phone.verifier = paired.verifier
  current : Pairing.sessionCurrent disk.pairs paired = true

variable {args : ProvisionArgs} {p q : Provision} {asking : Pairing.Session}

/-- What a provision has computed, with the phone it answers for. -/
theorem provision_parts (h : prepareProvision env intentDigest out disk paired args = .ok p) :
    Pairing.sessionCurrent disk.pairs paired = true ∧
    ∃ state stored prepared, stateRecord env out disk = .ok state ∧
      Mobile.prune env disk.mobile disk.pairs = .ok stored ∧
      Mobile.prepare env intentDigest state stored paired prepared p.base
        ⟨out.draw.device, out.draw.id, out.draw.secret⟩ = .ok (p.phones, p.phone) ∧
      Mobile.apply env state p.phone = .ok (p.state, p.changed) := by
  simp only [prepareProvision, bind_eq_ok] at h
  obtain ⟨address, -, h⟩ := h
  cases hmac : out.resolveMac address with
  | none => simp [hmac] at h
  | some mac =>
    simp only [hmac, bind_eq_ok, require_eq_ok, pure_eq_ok] at h
    obtain ⟨-, hcurrent, state, hst, base, -, stored, hs, ⟨phones, phone⟩, hp,
      ⟨state', changed⟩, ha, -,
      -, rfl⟩ := h
    exact ⟨hcurrent, state, stored, _, hst, hs, hp, ha⟩

/-- A new phone is of the pairing that asks. -/
theorem newPhone_pair {intent address : Text} {wish : Mobile.Intent} {b : Option Base}
    {random : Mobile.Random}
    (h : Mobile.newPhone state paired intent address wish b random = .ok phone) :
    phone.pairId = paired.id ∧ phone.verifier = paired.verifier := by
  simp only [Mobile.newPhone] at h
  split at h
  · cases b with
    | none => cases h
    | some base =>
      simp only [Mobile.newListener, bind_eq_ok, pure_eq_ok] at h
      obtain ⟨-, -, -, -, rfl⟩ := h
      exact ⟨rfl, rfl⟩
  · cases h
    exact ⟨rfl, rfl⟩

theorem journal_valid {phones phones' : List Mobile.Phone}
    (h : Mobile.journal env phones = .ok phones') :
    (∀ phone ∈ phones, Mobile.validPhone env phone = true) ∧
    (phones.flatMap Mobile.Phone.keys).Nodup := by
  simp only [Mobile.journal, bind_eq_ok, require_eq_ok] at h
  obtain ⟨-, -, -, hvalid, -, hnodup, -⟩ := h
  exact ⟨hvalid, hnodup⟩

/-- A journal has one phone for each pairing. -/
theorem phone_unique {phones : List Mobile.Phone} (hn : (phones.flatMap Mobile.Phone.keys).Nodup)
    {a b : Mobile.Phone} (ha : a ∈ phones) (hb : b ∈ phones) (h : a.pairId = b.pairId) : a = b := by
  induction phones with
  | nil => cases ha
  | cons c phones ih =>
    rw [List.flatMap_cons, List.nodup_append] at hn
    obtain ⟨-, hrest, hdisjoint⟩ := hn
    have hne : ∀ d ∈ phones, d.pairId ≠ c.pairId := fun d hd he =>
      hdisjoint c.pairId (by simp [Mobile.Phone.keys]) d.pairId
        (List.mem_flatMap.2 ⟨d, hd, by simp [Mobile.Phone.keys]⟩) he.symm
    rcases List.mem_cons.1 ha with ha | ha <;> rcases List.mem_cons.1 hb with hb | hb
    · rw [ha, hb]
    · exact absurd (by rw [← h, ha]) (hne b hb)
    · exact absurd (by rw [h, hb]) (hne a ha)
    · exact ih hrest ha hb

/-- What `mobile.prepare` returns: the phone of the pairing, in a valid journal that has all phones
it was given. -/
theorem prepare_valid {stored phones : List Mobile.Phone} {wish : Mobile.Args} {b : Option Base}
    {random : Mobile.Random}
    (h : Mobile.prepare env intentDigest state stored paired wish b random = .ok (phones, phone)) :
    (∀ other ∈ stored, other ∈ phones) ∧ phone ∈ phones ∧
      (∀ other ∈ phones, Mobile.validPhone env other = true) ∧
      (phone.pairId = paired.id ∧ phone.verifier = paired.verifier) ∧
      ∀ other ∈ stored, other.pairId = paired.id → phone = other := by
  simp only [Mobile.prepare, bind_eq_ok] at h
  obtain ⟨l, hl, -, -, name, -, address, -, -, -, mac, -, register, -, h⟩ := h
  obtain rfl := journal_eq hl
  obtain ⟨hvalid, hnodup⟩ := journal_valid hl
  cases hfind : l.find? (·.pairId = paired.id) with
  | some found =>
    simp only [hfind, bind_eq_ok, require_eq_ok, pure_eq_ok] at h
    obtain ⟨-, ⟨hv, -⟩, -, -, he⟩ := h
    cases he
    have hmem := List.mem_of_find?_eq_some hfind
    have hid : phone.pairId = paired.id := by simpa using List.find?_some hfind
    exact ⟨fun _ h => h, hmem, hvalid, ⟨hid, hv⟩,
      fun other ho hoid => phone_unique hnodup hmem ho (hid.trans hoid.symm)⟩
  | none =>
    simp only [hfind, bind_eq_ok, pure_eq_ok] at h
    obtain ⟨-, -, new, hnew, phones', hphones, he⟩ := h
    cases he
    obtain rfl := journal_eq hphones
    refine ⟨fun _ h => List.mem_append_left _ h, by simp, (journal_valid hphones).1,
      newPhone_pair hnew, fun other ho hoid => ?_⟩
    have := List.find?_eq_none.1 hfind other ho
    simp [hoid] at this

/-- Pruning keeps the phone of a current pairing. -/
theorem Journalled.pruned {stored : List Mobile.Phone} (hj : Journalled paired phone disk)
    (h : Mobile.prune env disk.mobile disk.pairs = .ok stored) : phone ∈ stored := by
  simp only [Mobile.prune, bind_eq_ok, pure_eq_ok] at h
  obtain ⟨l, hl, rfl⟩ := h
  obtain rfl := journal_eq hl
  refine List.mem_filter.2 ⟨hj.mem, ?_⟩
  rw [hj.pair.1, hj.pair.2]
  exact hj.current

/-- A provision of any pairing keeps the phone in the journal it writes. -/
theorem Journalled.provision (hj : Journalled paired phone disk)
    (h : prepareProvision env intentDigest out disk asking args = .ok p) : phone ∈ p.phones := by
  obtain ⟨-, state, stored, prepared, -, hprune, hprep, -⟩ := provision_parts h
  exact (prepare_valid hprep).1 phone (hj.pruned hprune)

/-- A provision of the pairing itself answers for the phone that is there. -/
theorem Journalled.repeats (hj : Journalled paired phone disk)
    (h : prepareProvision env intentDigest out disk paired args = .ok p) : p.phone = phone := by
  obtain ⟨-, state, stored, prepared, -, hprune, hprep, -⟩ := provision_parts h
  exact (prepare_valid hprep).2.2.2.2 phone (hj.pruned hprune) hj.pair.1

/-! Runs of provisions. -/

/-- A call that writes, as a step of the files. -/
def Performs (env : Env) (intentDigest : Mobile.Intent → Text) (disk : Disk)
    (label : Request × Outside) (disk' : Disk) : Prop :=
  perform env intentDigest label.2 disk label.1 = .ok disk'

/-- Provisions of any pairing, whole or cut. -/
def Provisioning : Request → Prop
  | .provision .. | .provisionCut .. | .provisionRefused _ => True
  | _ => False

/-- The call is a provision of the pairing that gets as far as its writes. -/
def Makes (env : Env) (intentDigest : Mobile.Intent → Text) (paired : Pairing.Session) (disk : Disk)
    (label : Request × Outside) (p : Provision) : Prop :=
  ∃ args, (label.1 = .provision paired args ∨ label.1 = .provisionCut paired args) ∧
    prepareProvision env intentDigest label.2 disk paired args = .ok p

/-- It also gets behind them. -/
def Completes (env : Env) (intentDigest : Mobile.Intent → Text) (paired : Pairing.Session)
    (disk : Disk) (label : Request × Outside) (p : Provision) : Prop :=
  ∃ args, label.1 = .provision paired args ∧
    prepareProvision env intentDigest label.2 disk paired args = .ok p

/-- state.json is accepted, and has what the phone asked for. -/
def SettledFile (env : Env) (phone : Mobile.Phone) (disk : Disk) : Prop :=
  ∃ state, Model.validateState env disk.state = .ok state ∧ Settled phone state

variable {label : Request × Outside}

theorem stateRecord_file (h : stateRecord env out disk = .ok state) :
    ∃ stored, Model.validateState env disk.state = .ok stored ∧
      state.devices = stored.devices ∧ state.clients = stored.clients := by
  simp only [stateRecord, bind_eq_ok, pure_eq_ok] at h
  obtain ⟨stored, hstored, rfl⟩ := h
  exact ⟨stored, hstored, rfl, rfl⟩

theorem Settled.congr (hs : Settled phone state) (hd : state'.devices = state.devices)
    (hc : state'.clients = state.clients) : Settled phone state' :=
  ⟨hd ▸ hs.device, hc ▸ hs.client⟩

/-- A state read from a settled file is settled. -/
theorem SettledFile.record (hs : SettledFile env phone disk)
    (h : stateRecord env out disk = .ok state) : Settled phone state := by
  obtain ⟨stored, hstored, hd, hc⟩ := stateRecord_file h
  obtain ⟨state', hstate', hs⟩ := hs
  obtain rfl : state' = stored := Except.ok.inj (hstate'.symm.trans hstored)
  exact hs.congr hd hc

theorem provision_valid (h : prepareProvision env intentDigest out disk paired args = .ok p) :
    Mobile.validPhone env p.phone = true := by
  obtain ⟨-, state, stored, prepared, -, -, hprep, -⟩ := provision_parts h
  exact (prepare_valid hprep).2.2.1 _ (prepare_valid hprep).2.1

/-- A provision leaves an accepted state.json. -/
theorem provision_files_accepted
    (h : prepareProvision env intentDigest out disk paired args = .ok p) :
    Accepted env disk.state ∧ Accepted env (p.files disk).state := by
  obtain ⟨-, state, stored, prepared, hst, -, -, happ⟩ := provision_parts h
  obtain ⟨file, hfile, -⟩ := stateRecord_file hst
  refine ⟨⟨file, hfile⟩, ?_⟩
  unfold Provision.files
  dsimp only
  split
  · exact accepted_raw (apply_ok happ)
  · exact ⟨file, hfile⟩

/-- A completed provision settles its phone. -/
theorem provision_settles (h : prepareProvision env intentDigest out disk paired args = .ok p) :
    SettledFile env p.phone (p.files disk) := by
  obtain ⟨-, state, stored, prepared, hst, -, hprep, happ⟩ := provision_parts h
  have hok := stateRecord_ok hst
  have hvalid := provision_valid h
  unfold SettledFile Provision.files
  dsimp only
  split
  · exact ⟨p.state, Model.validateState_raw (apply_ok happ), apply_settled hok hvalid happ⟩
  · rename_i hunchanged
    rw [Bool.not_eq_true] at hunchanged
    rw [hunchanged] at happ
    obtain ⟨file, hfile, hd, hc⟩ := stateRecord_file hst
    exact ⟨file, hfile, (settled_of_unchanged hok hvalid happ).congr hd.symm hc.symm⟩

/-- A completed provision of any pairing leaves the other phones settled. -/
theorem SettledFile.provision (hs : SettledFile env phone disk)
    (h : prepareProvision env intentDigest out disk asking args = .ok p) :
    SettledFile env phone (p.files disk) := by
  obtain ⟨-, state, stored, prepared, hst, -, hprep, happ⟩ := provision_parts h
  unfold Provision.files
  by_cases hchanged : p.changed
  · have hsettled := (hs.record hst).apply (stateRecord_ok hst) (provision_valid h) happ
    exact ⟨p.state, by simpa [hchanged] using Model.validateState_raw (apply_ok happ), hsettled⟩
  · obtain ⟨file, hfile, hsettled⟩ := hs
    exact ⟨file, by simpa [hchanged] using hfile, hsettled⟩

/-- What every provisioning step keeps. -/
theorem performs_keeps {label : Request × Outside} (hl : Provisioning label.1)
    (h : Performs env intentDigest disk label disk') :
    (Journalled paired phone disk → Journalled paired phone disk') ∧
      (Accepted env disk.state → Accepted env disk'.state) ∧
      (SettledFile env phone disk → SettledFile env phone disk') := by
  obtain ⟨request, out⟩ := label
  cases request with
  | provision asking args =>
    simp only [Performs, perform, map_eq_ok] at h
    obtain ⟨p, hp, rfl⟩ := h
    exact ⟨fun hj => ⟨hj.provision hp, hj.pair, hj.current⟩,
      fun _ => (provision_files_accepted hp).2, fun hs => hs.provision hp⟩
  | provisionCut asking args =>
    simp only [Performs, perform, map_eq_ok] at h
    obtain ⟨p, hp, rfl⟩ := h
    exact ⟨fun hj => ⟨hj.provision hp, hj.pair, hj.current⟩, fun ha => ha, fun hs => hs⟩
  | provisionRefused createRemote =>
    simp only [Performs, perform, bind_eq_ok, pure_eq_ok] at h
    obtain ⟨base, -, rfl⟩ := h
    exact ⟨fun hj => ⟨hj.mem, hj.pair, hj.current⟩, fun ha => ha, fun hs => hs⟩
  | _ => cases hl

/-- A provision leaves its phone in the journal, and an accepted state.json. -/
theorem makes_journals (hm : Makes env intentDigest paired disk label p)
    (h : Performs env intentDigest disk label disk') :
    Journalled paired p.phone disk' ∧ Accepted env disk'.state := by
  obtain ⟨request, out⟩ := label
  obtain ⟨args, hact, hp⟩ := hm
  obtain ⟨hcurrent, state, stored, prepared, -, -, hprep, -⟩ := provision_parts hp
  obtain ⟨-, hmem, -, hpair, -⟩ := prepare_valid hprep
  obtain ⟨hbefore, hafter⟩ := provision_files_accepted hp
  rcases hact with rfl | rfl <;> simp only [Performs, perform, map_eq_ok] at h <;>
    obtain ⟨q, hq, rfl⟩ := h <;> obtain rfl : p = q := Except.ok.inj (hp.symm.trans hq)
  · exact ⟨⟨hmem, hpair, hcurrent⟩, hafter⟩
  · exact ⟨⟨hmem, hpair, hcurrent⟩, hbefore⟩

theorem completes_settles (hc : Completes env intentDigest paired disk label p)
    (h : Performs env intentDigest disk label disk') : SettledFile env p.phone disk' := by
  obtain ⟨request, out⟩ := label
  obtain ⟨args, rfl, hp⟩ := hc
  simp only [Performs, perform, map_eq_ok] at h
  obtain ⟨q, hq, rfl⟩ := h
  obtain rfl : p = q := Except.ok.inj (hp.symm.trans hq)
  exact provision_settles hp

theorem makes_unique (hp : Makes env intentDigest paired disk label p)
    (hq : Makes env intentDigest paired disk label q) : p = q := by
  obtain ⟨args, ha, hp⟩ := hp
  obtain ⟨args', ha', hq⟩ := hq
  obtain rfl : args = args' := by
    rcases ha with ha | ha <;> rcases ha' with ha' | ha' <;> rw [ha] at ha' <;> cases ha' <;> rfl
  exact Except.ok.inj (hp.symm.trans hq)

/-- The provision was made in the run. -/
def Made (env : Env) (intentDigest : Mobile.Intent → Text) (paired : Pairing.Session)
    (start : Disk) (labels : List (Request × Outside)) (p : Provision) : Prop :=
  ∃ disk label, Fires (Performs env intentDigest) start labels disk label ∧
    Makes env intentDigest paired disk label p

/-- It was completed in the run. -/
def Completed (env : Env) (intentDigest : Mobile.Intent → Text) (paired : Pairing.Session)
    (start : Disk) (labels : List (Request × Outside)) (p : Provision) : Prop :=
  ∃ disk label, Fires (Performs env intentDigest) start labels disk label ∧
    Completes env intentDigest paired disk label p

/-- What a run of provisions has left of those of one pairing. -/
structure Retried (env : Env) (intentDigest : Mobile.Intent → Text) (paired : Pairing.Session)
    (start : Disk) (labels : List (Request × Outside)) (disk : Disk) : Prop where
  journalled : ∀ p, Made env intentDigest paired start labels p →
    Journalled paired p.phone disk ∧ Accepted env disk.state
  same : ∀ p q, Made env intentDigest paired start labels p →
    Made env intentDigest paired start labels q → p.phone = q.phone
  settled : ∀ p, Completed env intentDigest paired start labels p → SettledFile env p.phone disk

variable {start : Disk} {labels : List (Request × Outside)}

theorem performs_deterministic (disk : Disk) (label : Request × Outside) (a b : Disk)
    (ha : Performs env intentDigest disk label a) (hb : Performs env intentDigest disk label b) :
    a = b := Except.ok.inj (ha.symm.trans hb)

/-- A provision of a run that has grown was made before, or by the last call. -/
theorem made_append (hrun : Run (Performs env intentDigest) start labels disk)
    (h : Made env intentDigest paired start (labels ++ [label]) p) :
    Made env intentDigest paired start labels p ∨ Makes env intentDigest paired disk label p := by
  obtain ⟨u, last, hfires, hmakes⟩ := h
  rcases hfires.of_append with hfires | ⟨rfl, hu⟩
  · exact Or.inl ⟨u, last, hfires, hmakes⟩
  · obtain rfl := hrun.deterministic performs_deterministic hu
    exact Or.inr hmakes

theorem completed_append (hrun : Run (Performs env intentDigest) start labels disk)
    (h : Completed env intentDigest paired start (labels ++ [label]) p) :
    Completed env intentDigest paired start labels p ∨
      Completes env intentDigest paired disk label p := by
  obtain ⟨u, last, hfires, hcompletes⟩ := h
  rcases hfires.of_append with hfires | ⟨rfl, hu⟩
  · exact Or.inl ⟨u, last, hfires, hcompletes⟩
  · obtain rfl := hrun.deterministic performs_deterministic hu
    exact Or.inr hcompletes

theorem retried_step (hl : Provisioning label.1)
    (hrun : Run (Performs env intentDigest) start labels disk)
    (hr : Retried env intentDigest paired start labels disk)
    (h : Performs env intentDigest disk label disk') :
    Retried env intentDigest paired start (labels ++ [label]) disk' where
  journalled := by
    intro p hp
    rcases made_append hrun hp with hp | hp
    · obtain ⟨hj, ha⟩ := hr.journalled p hp
      obtain ⟨hkeep, haccept, -⟩ := @performs_keeps _ _ _ _ p.phone paired _ hl h
      exact ⟨hkeep hj, haccept ha⟩
    · exact makes_journals hp h
  same := by
    intro p q hp hq
    have hnew : ∀ p q, Made env intentDigest paired start labels p →
        Makes env intentDigest paired disk label q → q.phone = p.phone := by
      rintro p q hp ⟨args, -, hq⟩
      exact (hr.journalled p hp).1.repeats hq
    rcases made_append hrun hp with hp | hp <;> rcases made_append hrun hq with hq | hq
    · exact hr.same p q hp hq
    · exact (hnew p q hp hq).symm
    · exact hnew q p hq hp
    · rw [makes_unique hp hq]
  settled := by
    intro p hp
    rcases completed_append hrun hp with hp | hp
    · exact (@performs_keeps _ _ _ _ p.phone paired _ hl h).2.2 (hr.settled p hp)
    · exact completes_settles hp h

theorem retried_run (hl : ∀ label ∈ labels, Provisioning label.1)
    (h : Run (Performs env intentDigest) start labels disk) :
    Retried env intentDigest paired start labels disk := by
  refine Run.grow (P := fun labels disk => (∀ label ∈ labels, Provisioning label.1) →
    Retried env intentDigest paired start labels disk) ?_ ?_ h hl
  · intro _
    have hnone : ∀ p, ¬ Made env intentDigest paired start [] p :=
      fun _ ⟨_, _, hfires, _⟩ => not_fires_nil hfires
    exact ⟨fun p hp => absurd hp (hnone p), fun p _ hp => absurd hp (hnone p),
      fun _ ⟨_, _, hfires, _⟩ => absurd hfires not_fires_nil⟩
  · intro labels u label v hrun ih hstep hl
    exact retried_step (hl label (by simp)) hrun
      (ih fun l hlm => hl l (List.mem_append_left _ hlm)) hstep

/-- Checking the devices keeps their identifiers. -/
theorem scan_device_ids {raws : List RawDevice} {devices : List Device} {seen : List RuleKey}
    {resolveMac : Text → Option Text}
    (h : scan (Device.keys env.inet) (Policy.checkDevice env.inet resolveMac) seen raws =
      .ok devices) :
    raws.map RawDevice.id = devices.map Device.id := by
  induction raws generalizing seen devices with
  | nil => cases h; rfl
  | cons raw raws ih =>
    obtain ⟨device, rest, hdevice, hrest, rfl⟩ := scan_cons_eq_ok.1 h
    have hid : raw.id = device.id := by
      obtain ⟨id, _ | route, _ | bindMac, leak, name, address, mac⟩ := raw
      all_goals
        simp only [Policy.checkDevice, bind_eq_ok, pure_eq_ok, throw_ne_ok, and_false, exists_false]
          at hdevice
      obtain ⟨-, -, -, -, name, -, address, -, -, -, mac, -, -, -, rfl⟩ := hdevice
      rfl
    rw [List.map_cons, List.map_cons, hid, ih hrest]

theorem validateSettings_deviceIds {payload : RawPolicy} {checked : Policy}
    {resolveMac : Text → Option Text}
    (h : Policy.validateSettings env.inet resolveMac payload = .ok checked) :
    (payload.devices.value?.getD []).map RawDevice.id = checked.devices.map Device.id := by
  cases hsettings : payload.settings with
  | missing => simp [hsettings, Policy.validateSettings] at h
  | invalid => simp [hsettings, Policy.validateSettings] at h
  | value settings =>
    simp only [hsettings, Policy.validateSettings, bind_eq_ok, pure_eq_ok] at h
    obtain ⟨s, -, rc, -, raws, hraws, rs, -, c, -, devices, hdevices, w, -, rfl⟩ := h
    have hlist : payload.devices.value?.getD [] = raws := by
      cases hd : payload.devices with
      | missing => rw [hd] at hraws; cases hraws; rfl
      | invalid => rw [hd] at hraws; cases hraws
      | value l =>
        rw [hd, Policy.listOf] at hraws
        split at hraws <;> cases hraws
        rfl
    rw [hlist, scan_device_ids hdevices]

/-- The devices of an accepted file keep their identifiers when they are read. -/
theorem validateState_deviceIds (h : Model.validateState env disk.state = .ok state) :
    disk.devices.map RawDevice.id = state.devices.map Device.id := by
  simp only [Model.validateState, bind_eq_ok, require_eq_ok, pure_eq_ok] at h
  obtain ⟨-, -, rev, -, -, -, -, -, policy, hpolicy, servers, -, clients, -, vs, -,
    active, -, cs, -,
    rfl⟩ := h
  exact validateSettings_deviceIds hpolicy

/-- The devices and the clients of an accepted file have identifiers of their own. -/
theorem accepted_nodup (h : Accepted env disk.state) :
    (disk.devices.map RawDevice.id).Nodup ∧ (disk.clients.map Client.key).Nodup := by
  obtain ⟨state, hstate⟩ := h
  have hok := Model.validateState_ok hstate
  constructor
  · rw [validateState_deviceIds hstate]
    exact hok.policy.devices.nodup_map (k := RuleKey.id) fun _ => by simp [Device.keys]
  · rw [show disk.clients = state.clients by simp [Disk.clients, (validateState_lists hstate).2]]
    exact hok.clients.nodup_map (k := id) fun _ => by simp [Client.keys]

/-- The client of the applied state, which the profile is made of, has the phone's secret and
port. -/
theorem provision_client (h : prepareProvision env intentDigest out disk paired args = .ok p) :
    ∀ client ∈ p.state.clients, p.phone.remoteClientId = some client.key →
      client.secret.value? = p.phone.remoteSecret ∧ client.port = p.phone.remotePort := by
  obtain ⟨-, state, stored, prepared, hst, -, -, happ⟩ := provision_parts h
  have hsettled := apply_settled (stateRecord_ok hst) (provision_valid h) happ
  intro client hclient hid
  exact ((hsettled.client client.key hid).2 client hclient rfl).2

/-- In a run of provisions, whole or cut, all calls of one pairing answer for the same phone;
state.json has at most one LAN device and at most one client of it; and once a call is complete the
next one applies without a change and leaves state.json as it is. -/
theorem provision_idempotent (hl : ∀ label ∈ labels, Provisioning label.1)
    (hrun : Run (Performs env intentDigest) start labels disk) :
    (∀ p q, Made env intentDigest paired start labels p →
      Made env intentDigest paired start labels q → p.phone = q.phone) ∧
    (∀ p, Made env intentDigest paired start labels p → ∀ client ∈ p.state.clients,
      p.phone.remoteClientId = some client.key →
      client.secret.value? = p.phone.remoteSecret ∧ client.port = p.phone.remotePort) ∧
    (∀ p, Made env intentDigest paired start labels p →
      (disk.devices.filter fun device => p.phone.lanDeviceId = some device.id).length ≤ 1 ∧
      (disk.clients.filter fun client => p.phone.remoteClientId = some client.key).length ≤ 1) ∧
    ∀ p, Completed env intentDigest paired start labels p → ∀ out,
      (∀ state, stateRecord env out disk = .ok state →
        Mobile.apply env state p.phone = .ok (state, false)) ∧
      ∀ args q, prepareProvision env intentDigest out disk paired args = .ok q →
        q.phone = p.phone ∧ q.changed = false ∧ (q.files disk).state = disk.state := by
  have hretried : Retried env intentDigest paired start labels disk := retried_run hl hrun
  refine ⟨hretried.same, ?_, fun p hp => ?_, fun p hp out => ?_⟩
  · rintro p ⟨_, _, -, _, -, hmade⟩
    exact provision_client hmade
  · obtain ⟨hdevices, hclients⟩ := accepted_nodup (hretried.journalled p hp).2
    constructor
    · cases hid : p.phone.lanDeviceId with
      | none => simp
      | some id => simpa [hid, eq_comm] using Keyed.length_filter_key_le hdevices id
    · cases hid : p.phone.remoteClientId with
      | none => simp
      | some id => simpa [hid, eq_comm] using Keyed.length_filter_key_le hclients id
  · have hsettled := hretried.settled p hp
    have happly : ∀ state, stateRecord env out disk = .ok state →
        Mobile.apply env state p.phone = .ok (state, false) :=
      fun state hst => (hsettled.record hst).unchanged (stateRecord_ok hst)
    refine ⟨happly, fun args q hq => ?_⟩
    obtain ⟨u, label, hfires, args', hact, hmade⟩ := hp
    have hphone : q.phone = p.phone :=
      (hretried.journalled p ⟨u, label, hfires, args', Or.inl hact, hmade⟩).1.repeats hq
    obtain ⟨-, state, stored, prepared, hst, -, -, hq'⟩ := provision_parts hq
    rw [hphone, happly state hst] at hq'
    obtain ⟨-, hchanged⟩ := Prod.mk.inj (Except.ok.inj hq')
    exact ⟨hphone, hchanged.symm, by simp [Provision.files, ← hchanged]⟩

/-! A provision that stops between its writes, and its retry. -/

def retryRun : List (Request × Outside) :=
  [(.provisionCut phoneSession remoteWish, phoneOutside '1' isHex_one),
    (.provision phoneSession remoteWish, phoneOutside '2' isHex_two)]

def retriedDisk : Disk :=
  lateDisk 1 [Mobile.client preparedPhone "client-000000000001".toList] [preparedPhone]

theorem provision_retry : perform plainEnv zeroDigest (phoneOutside '2' rfl)
    (lateDisk 0 [] [preparedPhone]) (.provision phoneSession remoteWish) = .ok retriedDisk := by
  decide

theorem provision_idempotent_retry : ∃ p,
    Completed plainEnv zeroDigest phoneSession (lateDisk 0 [] []) retryRun p ∧
    ∀ out args q, prepareProvision plainEnv zeroDigest out retriedDisk phoneSession args = .ok q →
      q.phone = p.phone ∧ q.changed = false ∧ (q.files retriedDisk).state = retriedDisk.state := by
  have hcut : Performs plainEnv zeroDigest (lateDisk 0 [] [])
      (.provisionCut phoneSession remoteWish, phoneOutside '1' rfl)
      (lateDisk 0 [] [preparedPhone]) :=
    provision_cut
  obtain ⟨p, hp, -⟩ := map_eq_ok.1 provision_retry
  have hcompleted : Completed plainEnv zeroDigest phoneSession (lateDisk 0 [] []) retryRun p :=
    ⟨_, _, ⟨[_], [], rfl, .single hcut⟩, remoteWish, rfl, hp⟩
  refine ⟨p, hcompleted, fun out args q hq => ?_⟩
  have hrun : Run (Performs plainEnv zeroDigest) (lateDisk 0 [] []) retryRun retriedDisk :=
    .stepL hcut (.single provision_retry)
  have hcalls : ∀ label ∈ retryRun, Provisioning label.1 := by
    simp [retryRun, Provisioning]
  exact ((provision_idempotent hcalls hrun).2.2.2 p hcompleted out).2 args q hq

end Foxhole.Rpc
