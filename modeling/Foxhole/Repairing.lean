import Foxhole.ProvisionRetry
import Mathlib.Data.List.Flatten

/-! A phone that is paired anew and registers its LAN device again. -/
namespace Foxhole.Rpc
open Check Text Address Trace

variable {env : Env} {intentDigest : Mobile.Intent → Text} {out : Outside} {disk : Disk}
  {state state' : State} {phone : Mobile.Phone} {paired : Pairing.Session} {changed : Bool}
  {stored : List Mobile.Phone} {args : Mobile.Args} {base : Option Base} {mac : Text}

/-- A pairing that is not in the journal asks for its LAN device, and for remote access only where
there is room. -/
structure Returning (env : Env) (out : Outside) (disk : Disk) (paired : Pairing.Session)
    (args : Mobile.Args) (state : State) (stored : List Mobile.Phone) (base : Option Base)
    (mac : Text) : Prop where
  read : stateRecord env out disk = .ok state
  current : Pairing.sessionCurrent disk.pairs paired = true
  pruned : Mobile.prune env disk.mobile disk.pairs = .ok stored
  new : ∀ phone ∈ disk.mobile, phone.pairId ≠ paired.id
  name : Succeeds (Model.clientName args.name)
  address : ∃ address, normalizeAddress env.inet args.address = .ok address ∧
    hostAddress env.inet address = some address ∧
    (env.inet.iptoarr address).map (·.bytes.length) = some 4
  mac : normalizeMac args.mac = .ok mac
  register : Mobile.registers args = .ok true
  phones : stored.length < 16
  devices : state.devices.length < 512
  room : args.createRemote = true → ∃ b, base = some b ∧
    (Inbound.usedPorts state.clients).length < Inbound.limit b ∧
    PortFree b (Inbound.usedPorts state.clients)
  fresh : ∀ id ∈ out.draw.ids, id ∉ disk.ids

/-! Identifiers of different kinds. -/

theorem tagged_head {tag t : Text} {n : ℕ} (h : (tagged tag n).accepts t = true) :
    t.head? = (tag ++ ['-']).head? := by
  obtain ⟨u, rfl, -⟩ := Regex.accepts_lit_rep.1 h
  cases tag <;> rfl

theorem tagged_ne {tag tag' s t : Text} {n m : ℕ} (hs : (tagged tag n).accepts s = true)
    (ht : (tagged tag' m).accepts t = true) (hne : (tag ++ ['-']).head? ≠ (tag' ++ ['-']).head?) :
    s ≠ t := by
  rintro rfl
  exact hne ((tagged_head hs).symm.trans (tagged_head ht))

/-- No MAC is the key of a site. -/
theorem mac_ne_site {p : Text} (h : normalizeMac mac = .ok mac) : mac ≠ "site:".toList ++ p := by
  rintro rfl
  have hshape := (normalizeMac_eq_ok.1 h).1
  have hin := macShape_within.forall_mem (Regex.accepts_iff.1 hshape) 's' (by simp)
  exact absurd hin (by decide)

/-- A device may be added under an identifier and an identity of its own. -/
theorem ok_addDevice {device : Device} (h : state.Ok env) (hd : device.Ok env.inet)
    (hbound : device.bindMac = true) (hlen : state.devices.length < 512)
    (hnew : ∀ other ∈ state.devices, other.id ≠ device.id)
    (hidentity : ∀ other ∈ state.devices, other.identity env.inet ≠ device.identity env.inet) :
    State.Ok env { state with devices := state.devices ++ [device] } := by
  have hmac : ∃ m, device.identity env.inet = m ∧ normalizeMac m = .ok m := by
    obtain ⟨m, hm⟩ := Option.ne_none_iff_exists'.1 (hd.bound hbound)
    exact ⟨m, by simp [Device.identity, hbound, hm], hd.mac m hm⟩
  obtain ⟨m, hm, hnormal⟩ := hmac
  have hkeys : (device.keys env.inet).Disjoint
      (seenAfter (Device.keys env.inet) [] state.devices) := by
    intro key hkey hseen
    obtain ⟨other, hother, hkey'⟩ : ∃ other ∈ state.devices, key ∈ other.keys env.inet := by
      simpa using hseen
    simp only [Device.keys, List.mem_cons, List.not_mem_nil, or_false] at hkey hkey'
    rcases hkey with rfl | rfl <;> rcases hkey' with hk | hk
    · exact hnew other hother (RuleKey.id.inj hk).symm
    · cases hk
    · cases hk
    · exact hidentity other hother (RuleKey.identity.inj hk).symm
  refine ⟨⟨h.policy.countries, h.policy.countries_le, ?_, ?_, ?_, h.policy.sites_le⟩, h.servers,
    h.active, h.clients⟩
  · exact scanned_append.2 ⟨h.policy.devices, scanned_singleton.2 ⟨hd, hkeys⟩⟩
  · simp only [List.length_append, List.length_singleton]
    omega
  · have hsites := h.policy.sites
    refine hsites.grow (fun _ _ _ _ hs => hs) (fun key hkey => ?_) (fun site hsite key hkey => ?_)
    · simp only [mem_seenAfter, List.mem_append] at hkey ⊢
      rcases hkey with hkey | ⟨other, hother, hkey⟩
      · exact Or.inl hkey
      · exact Or.inr ⟨other, Or.inl hother, hkey⟩
    · intro hseen
      rcases mem_seenAfter.1 hseen with hnil | ⟨other, hother, hkey'⟩
      · cases hnil
      rcases List.mem_append.1 hother with hother | hother
      · exact hsites.disjoint site hsite hkey (mem_seenAfter.2 (Or.inr ⟨other, hother, hkey'⟩))
      · obtain rfl := List.mem_singleton.1 hother
        have hsiteOk := hsites.forall_mem (fun _ _ hs => hs) site hsite
        simp only [Site.keys, Device.keys, List.mem_cons, List.not_mem_nil, or_false] at hkey hkey'
        rcases hkey with rfl | rfl <;> rcases hkey' with hk | hk
        · exact tagged_ne hsiteOk.id hd.id (by decide) (RuleKey.id.inj hk)
        · cases hk
        · cases hk
        · exact mac_ne_site hnormal (hm ▸ (RuleKey.identity.inj hk).symm)

/-- The remote part of a new phone: none, or an identifier, a secret and a port of its own. -/
def RemotePart (out : Outside) (phone : Mobile.Phone) : Prop :=
  phone.remoteClientId = none ∨
    phone.remoteClientId = some ("client-".toList ++ out.draw.id) ∧
      phone.remoteSecret = some out.draw.secret.1 ∧
      ∃ port, phone.remotePort = .value port ∧ 1 ≤ port ∧ port ≤ 65535

/-- The phone that `mobile.prepare` makes for a returning pairing. -/
structure NewPhone (out : Outside) (paired : Pairing.Session) (intent name address mac : Text)
    (phone : Mobile.Phone) : Prop where
  pairId : phone.pairId = paired.id
  verifier : phone.verifier = paired.verifier
  intent : phone.intent = intent
  name : phone.name = name
  address : phone.address = address
  mac : phone.mac = mac
  lanDeviceId : phone.lanDeviceId = some ("device-".toList ++ out.draw.device)
  remote : RemotePart out phone

theorem Returning.newPhone (h : Returning env out disk paired args state stored base mac)
    (intent name address : Text) : ∃ phone,
    Mobile.newPhone state paired intent address ⟨name, mac, true, args.createRemote⟩ base
      ⟨out.draw.device, out.draw.id, out.draw.secret⟩ = .ok phone ∧
    NewPhone out paired intent name address mac phone := by
  let plain : Mobile.Phone := {
    pairId := paired.id, verifier := paired.verifier, intent, name, address, mac
    lanDeviceId := some ("device-".toList ++ out.draw.device) }
  unfold Mobile.newPhone
  by_cases hcreate : args.createRemote = true
  · obtain ⟨b, hb, hlimit, hfree⟩ := h.room hcreate
    obtain ⟨port, hport, hlow, hhigh⟩ := freePort_bounds hfree
    have hfits : Inbound.tooHigh (.value port) = false := by
      simpa [Inbound.tooHigh] using hhigh
    refine ⟨{ plain with
        remotePort := .value port
        remoteClientId := some ("client-".toList ++ out.draw.id)
        remoteSecret := some out.draw.secret.1 }, ?_, ⟨rfl, rfl, rfl, rfl, rfl, rfl, rfl,
      Or.inr ⟨rfl, rfl, port, rfl, hlow, hhigh⟩⟩⟩
    simp only [hcreate, if_true, hb, Mobile.newListener, bind_eq_ok, require_eq_ok, pure_eq_ok,
      hport]
    exact ⟨(), hlimit, (), hfits, rfl⟩
  · refine ⟨plain, ?_, ⟨rfl, rfl, rfl, rfl, rfl, rfl, rfl, Or.inl rfl⟩⟩
    simp only [hcreate, Bool.false_eq_true, if_false]
    rfl

theorem clientName_ok {name n : Text} (h : Model.clientName name = .ok n) :
    1 ≤ n.length ∧ n.length ≤ 48 ∧ trim n = n ∧ hasCntrl n = false := by
  simp only [Model.clientName, bind_eq_ok, require_eq_ok, pure_eq_ok] at h
  obtain ⟨-, ⟨-, hlen, hcntrl⟩, -, -, -, hne, rfl⟩ := h
  refine ⟨List.length_pos_iff.2 hne, trim_length_le.trans hlen, trim_trim, ?_⟩
  rw [hasCntrl, List.any_eq_false] at hcntrl ⊢
  exact fun c hc => hcntrl c (trim_sublist.subset hc)

theorem deviceId_accepts (out : Outside) :
    (tagged "device".toList 12).accepts ("device-".toList ++ out.draw.device) = true :=
  tagged_append "device".toList out.draw.device

theorem clientId_accepts (out : Outside) :
    (tagged "client".toList 12).accepts ("client-".toList ++ out.draw.id) = true :=
  tagged_append "client".toList out.draw.id

/-- The pairing record vouches for the shape of a pairing. -/
theorem current_valid {pairs : Pairing.Record} (h : Pairing.sessionCurrent pairs paired = true) :
    Pairing.validId paired.id = true ∧ (hexOf 64).accepts paired.verifier = true := by
  obtain ⟨device, hdevice, hid, hhash⟩ := Pairing.sessionCurrent_iff.1 h
  have hvalid := pairs.valid device hdevice
  simp only [Pairing.validDevice, Bool.and_eq_true] at hvalid
  exact ⟨hid ▸ hvalid.1.1.1, hhash ▸ hvalid.1.2⟩

theorem NewPhone.valid {intent name address : Text}
    (h : NewPhone out paired intent name address mac phone)
    (hpaired : Pairing.validId paired.id = true ∧ (hexOf 64).accepts paired.verifier = true)
    (hintent : (hexOf 64).accepts intent = true) (hname : 1 ≤ name.length ∧ name.length ≤ 48)
    (haddress : hostAddress env.inet address = some address) (hmac : normalizeMac mac = .ok mac) :
    Mobile.validPhone env phone = true := by
  have hremote : Mobile.validRemote phone = true := by
    unfold Mobile.validRemote
    rcases h.remote with hnone | ⟨hid, hsecret, port, hport, hlow, hhigh⟩
    · rw [hnone]
    · rw [hid, hsecret, hport]
      simpa [out.draw.secret.2, hlow, hhigh] using clientId_accepts out
  simpa [Mobile.validPhone, h.pairId, h.verifier, h.intent, h.name, h.address, h.mac, h.lanDeviceId,
    hpaired, hintent, hname, haddress, hmac, hremote, Except.toOption] using deviceId_accepts out

theorem mem_mobile_ids {id : Text} (h : id ∉ disk.ids) :
    ∀ phone ∈ disk.mobile, id ∉ phone.keys := by
  simp only [Disk.ids, List.mem_append, List.mem_flatMap, not_or, not_exists, not_and] at h
  exact h.2

theorem keys_shape {other : Mobile.Phone} (h : Mobile.validPhone env other = true) {key : Text}
    (hkey : key ∈ other.keys) : key = other.pairId ∨
      (tagged "device".toList 12).accepts key = true ∨
      (tagged "client".toList 12).accepts key = true := by
  simp only [Mobile.validPhone, Bool.and_eq_true] at h
  obtain ⟨⟨⟨⟨⟨⟨-, hdevice⟩, -⟩, -⟩, -⟩, -⟩, hremote⟩ := h
  simp only [Mobile.Phone.keys, List.mem_cons, List.mem_append, Option.mem_toList] at hkey
  rcases hkey with rfl | hkey | hkey
  · exact Or.inl rfl
  · rw [hkey] at hdevice
    exact Or.inr (Or.inl hdevice)
  · unfold Mobile.validRemote at hremote
    rw [hkey] at hremote
    split at hremote
    · contradiction
    · rename_i hid _ _
      cases hid
      simp only [Bool.and_eq_true] at hremote
      exact Or.inr (Or.inr hremote.1.1.1)
    · cases hremote

/-- The journal that a provision goes on with, and what it is a part of. -/
theorem pruned_journal {mobile : List Mobile.Phone} {pairs : Pairing.Record}
    (h : Mobile.prune env mobile pairs = .ok stored) :
    (∀ phone ∈ stored, phone ∈ mobile ∧ Mobile.validPhone env phone = true) ∧
      (stored.flatMap Mobile.Phone.keys).Nodup := by
  simp only [Mobile.prune, bind_eq_ok, pure_eq_ok] at h
  obtain ⟨l, hl, rfl⟩ := h
  obtain rfl := journal_eq hl
  obtain ⟨hvalid, hnodup⟩ := journal_valid hl
  refine ⟨fun phone hphone => ?_, hnodup.sublist (List.filter_sublist.flatMap _)⟩
  have hmem := List.mem_of_mem_filter hphone
  exact ⟨hmem, hvalid phone hmem⟩

theorem Returning.fresh_device (h : Returning env out disk paired args state stored base mac) :
    "device-".toList ++ out.draw.device ∉ disk.ids := h.fresh _ (by simp [Draw.ids])

theorem Returning.fresh_client (h : Returning env out disk paired args state stored base mac) :
    "client-".toList ++ out.draw.id ∉ disk.ids := h.fresh _ (by simp [Draw.ids])

/-- The identifiers of a new phone are new to the journal. -/
theorem Returning.keys (h : Returning env out disk paired args state stored base mac)
    {intent name address : Text} (hphone : NewPhone out paired intent name address mac phone) :
    ((stored ++ [phone]).flatMap Mobile.Phone.keys).Nodup := by
  have hpaired : (tagged "pair".toList 32).accepts paired.id = true := (current_valid h.current).1
  obtain ⟨hstored, hnodup⟩ := pruned_journal h.pruned
  have hkeys : phone.keys.Nodup ∧ ∀ key ∈ phone.keys, key = paired.id ∨ key ∉ disk.ids := by
    have hdevice := tagged_ne hpaired (deviceId_accepts out) (by decide)
    have hclient := tagged_ne hpaired (clientId_accepts out) (by decide)
    have hother := tagged_ne (deviceId_accepts out) (clientId_accepts out) (by decide)
    unfold Mobile.Phone.keys
    rw [hphone.pairId, hphone.lanDeviceId]
    rcases hphone.remote with hid | ⟨hid, -⟩
    · rw [hid]
      refine ⟨by simpa using hdevice, fun key hkey => ?_⟩
      simp only [Option.toList_some, Option.toList_none, List.append_nil, List.mem_cons,
        List.not_mem_nil, or_false] at hkey
      rcases hkey with rfl | rfl
      · exact Or.inl rfl
      · exact Or.inr h.fresh_device
    · rw [hid]
      have hthree : ∀ a b c : Text, a ≠ b → a ≠ c → b ≠ c → [a, b, c].Nodup := by
        intro a b c hab hac hbc
        simp [hab, hac, hbc]
      refine ⟨hthree _ _ _ hdevice hclient hother, fun key hkey => ?_⟩
      simp only [Option.toList_some, List.cons_append, List.nil_append, List.mem_cons,
        List.not_mem_nil, or_false] at hkey
      rcases hkey with rfl | rfl | rfl
      · exact Or.inl rfl
      · exact Or.inr h.fresh_device
      · exact Or.inr h.fresh_client
  rw [List.flatMap_append, List.flatMap_singleton]
  refine List.nodup_append.2 ⟨hnodup, hkeys.1, fun key hkey key' hkey' he => ?_⟩
  subst he
  obtain ⟨other, hother, hmem⟩ := List.mem_flatMap.1 hkey
  obtain ⟨hin, hvalid⟩ := hstored other hother
  rcases hkeys.2 key hkey' with rfl | hnew
  · rcases keys_shape hvalid hmem with heq | hdevice | hclient
    · exact h.new other hin heq.symm
    · exact tagged_ne hpaired hdevice (by decide) rfl
    · exact tagged_ne hpaired hclient (by decide) rfl
  · exact mem_mobile_ids hnew other hin hmem

/-- `mobile.prepare` adds a new phone to the journal. -/
theorem Returning.prepare (h : Returning env out disk paired args state stored base mac)
    (hdigest : ∀ wish, (hexOf 64).accepts (intentDigest wish) = true) :
    ∃ intent name address phone, NewPhone out paired intent name address mac phone ∧
      Model.clientName args.name = .ok name ∧
      (normalizeAddress env.inet args.address = .ok address ∧
        hostAddress env.inet address = some address) ∧
      Mobile.prepare env intentDigest state stored paired args base
        ⟨out.draw.device, out.draw.id, out.draw.secret⟩ = .ok (stored ++ [phone], phone) := by
  obtain ⟨name, hname⟩ := h.name
  obtain ⟨address, haddress, hhost, hbytes⟩ := h.address
  obtain ⟨phone, hphone, hnew⟩ := h.newPhone (intentDigest ⟨name, mac, true, args.createRemote⟩)
    name address
  obtain ⟨hstored, hnodup⟩ := pruned_journal h.pruned
  have hpaired := current_valid h.current
  have hmac : normalizeMac mac = .ok mac := normalizeMac_normalized h.mac
  obtain ⟨hlow, hhigh, -⟩ := clientName_ok hname
  have hvalid := hnew.valid hpaired (hdigest _) ⟨hlow, hhigh⟩ hhost hmac
  have hjournal : Mobile.journal env stored = .ok stored := by
    simp only [Mobile.journal, bind_eq_ok, require_eq_ok]
    exact ⟨(), h.phones.le, (), fun other hother => (hstored other hother).2, (), hnodup, rfl⟩
  have hwritten : Mobile.journal env (stored ++ [phone]) = .ok (stored ++ [phone]) := by
    have hlen := h.phones
    simp only [Mobile.journal, bind_eq_ok, require_eq_ok]
    refine ⟨(), by simp only [List.length_append, List.length_singleton]; omega, (), ?_, (),
      h.keys hnew, rfl⟩
    simp only [List.mem_append, List.mem_singleton]
    rintro other (hother | rfl)
    · exact (hstored other hother).2
    · exact hvalid
  have hfind : stored.find? (·.pairId = paired.id) = none := by
    refine List.find?_eq_none.2 fun other hother => ?_
    simpa using h.new other (hstored other hother).1
  refine ⟨_, name, address, phone, hnew, hname, ⟨haddress, hhost⟩, ?_⟩
  simp only [Mobile.prepare, bind_eq_ok, require_eq_ok]
  refine ⟨stored, hjournal, (), hpaired, name, hname, address, haddress, (), ⟨hhost, hbytes⟩, mac,
    h.mac, true, h.register, ?_⟩
  simp only [hfind, bind_eq_ok, require_eq_ok, pure_eq_ok]
  exact ⟨(), h.phones, phone, hphone, stored ++ [phone], hwritten, rfl⟩

/-- The records of the state that is read are those of the file. -/
theorem stateRecord_deviceIds (h : stateRecord env out disk = .ok state) :
    disk.devices.map RawDevice.id = state.devices.map Device.id := by
  simp only [stateRecord, bind_eq_ok, pure_eq_ok] at h
  obtain ⟨s, hs, rfl⟩ := h
  have hids : disk.devices.map RawDevice.id = s.devices.map Device.id := validateState_deviceIds hs
  exact hids

theorem Returning.unused (h : Returning env out disk paired args state stored base mac) :
    (∀ device ∈ state.devices, device.id ≠ "device-".toList ++ out.draw.device) ∧
      ∀ client ∈ state.clients, client.key ≠ "client-".toList ++ out.draw.id := by
  have hids := stateRecord_deviceIds h.read
  obtain ⟨-, hclients⟩ := stateRecord_lists h.read
  have hdevice := h.fresh_device
  have hclient := h.fresh_client
  simp only [Disk.ids, List.mem_append, not_or, hids, hclients] at hdevice hclient
  exact ⟨fun device hd he => hdevice.1.2 (he ▸ List.mem_map_of_mem hd),
    fun client hc he => hclient.1.1.2 (he ▸ List.mem_map_of_mem hc)⟩

theorem applyDevice_new {id : Text} (hid : phone.lanDeviceId = some id)
    (hnew : ∀ device ∈ state.devices, device.id ≠ id) : Mobile.applyDevice state phone =
      .ok ({ state with devices := state.devices ++ [Mobile.device phone id] }, true) := by
  have hany : ¬ (state.devices.any (·.id = id)) = true := by simpa using hnew
  unfold Mobile.applyDevice
  rw [hid]
  simp only [bind_eq_ok, require_eq_ok]
  refine ⟨(), fun device hd he => absurd he (hnew device hd), ?_⟩
  rw [if_neg hany]
  rfl

theorem applyClient_new {id : Text} (hid : phone.remoteClientId = some id)
    (hnew : ∀ client ∈ state.clients, client.key ≠ id) : Mobile.applyClient state phone =
      .ok ({ state with clients := state.clients ++ [Mobile.client phone id] }, true) := by
  have hany : ¬ (state.clients.any (·.key = id)) = true := by simpa using hnew
  unfold Mobile.applyClient
  rw [hid]
  simp only [bind_eq_ok, require_eq_ok]
  refine ⟨(), fun client hc he => absurd he (hnew client hc), ?_⟩
  rw [if_neg hany]
  rfl

/-- The client of a new phone may be added. -/
theorem newClient_shape (hsecret : phone.remoteSecret = some out.draw.secret.1) {port : ℤ}
    (hport : phone.remotePort = .value port) (hlow : 1 ≤ port) (hhigh : port ≤ 65535) :
    Model.clientShape (Mobile.client phone ("client-".toList ++ out.draw.id)) = true := by
  have hlistens : Model.listens (Mobile.client phone ("client-".toList ++ out.draw.id)) = true := by
    simp [Model.listens, Mobile.client, hsecret, hport, out.draw.secret.2, hlow, hhigh]
  have htype : "smartphone".toList ∈ Model.deviceTypes := by decide
  have hkey : (Mobile.client phone ("client-".toList ++ out.draw.id)).key =
      "client-".toList ++ out.draw.id := rfl
  simp only [Model.clientShape, hlistens, hkey, clientId_accepts out, Bool.or_true, Bool.and_true,
    Bool.true_and]
  simpa [Mobile.client] using htype

/-- The device of a new phone may be added. -/
theorem NewPhone.deviceOk {intent name address id : Text}
    (h : NewPhone out paired intent name address mac phone)
    (hid : (tagged "device".toList 12).accepts id = true)
    (hname : Model.clientName args.name = .ok name)
    (haddress : normalizeAddress env.inet args.address = .ok address)
    (hmac : normalizeMac mac = .ok mac) : (Mobile.device phone id).Ok env.inet where
  id := hid
  name := by
    obtain ⟨-, hlen, htrim, hcntrl⟩ := clientName_ok hname
    simp only [Mobile.device, h.name]
    exact ⟨htrim, by omega, hcntrl⟩
  address := by
    simp only [Mobile.device, h.address, Option.mem_some_iff]
    rintro a rfl
    exact normalizeAddress_normalized haddress
  mac := by
    simp only [Mobile.device, h.mac, Option.mem_some_iff]
    rintro m rfl
    exact hmac
  bound _ := by simp [Mobile.device]
  unbound hb := by cases hb

/-- `mobile.apply` succeeds where no device has the MAC. -/
theorem Returning.apply (h : Returning env out disk paired args state stored base mac)
    {intent name address : Text} (hphone : NewPhone out paired intent name address mac phone)
    (hname : Model.clientName args.name = .ok name)
    (haddress : normalizeAddress env.inet args.address = .ok address)
    (hfree : ∀ device ∈ state.devices, device.identity env.inet ≠ mac) :
    Succeeds (Mobile.apply env state phone) := by
  have hok := stateRecord_ok h.read
  obtain ⟨hdevices, hclients⟩ := h.unused
  have hdevice := applyDevice_new hphone.lanDeviceId hdevices
  have hadded : State.Ok env { state with devices := state.devices ++
      [Mobile.device phone ("device-".toList ++ out.draw.device)] } := by
    refine ok_addDevice hok (hphone.deviceOk (deviceId_accepts out) hname haddress
      (normalizeMac_normalized h.mac)) rfl h.devices hdevices ?_
    simpa [Device.identity, Mobile.device, hphone.mac] using hfree
  obtain ⟨result, new, hclient, hresult⟩ : ∃ result new, Mobile.applyClient { state with
      devices := state.devices ++ [Mobile.device phone ("device-".toList ++ out.draw.device)] }
      phone = .ok (result, new) ∧ result.Ok env := by
    rcases hphone.remote with hnone | ⟨hid, hsecret, port, hport, hlow, hhigh⟩
    · exact ⟨_, false, by unfold Mobile.applyClient; rw [hnone], hadded⟩
    · refine ⟨_, true, applyClient_new hid hclients, ?_⟩
      exact ok_addClient hadded (newClient_shape hsecret hport hlow hhigh) hclients rfl
  have hwritten := Model.validateState_raw (ok_bump hresult)
  refine ⟨(bump result, true), ?_⟩
  simp only [Mobile.apply, bind_eq_ok, pure_eq_ok]
  exact ⟨state, Model.validateState_raw hok, _, hdevice, _, hclient, bump result, hwritten, rfl⟩

/-- A new device that got through has the MAC for itself. -/
theorem Returning.alone (h : Returning env out disk paired args state stored base mac)
    {intent name address : Text} (hphone : NewPhone out paired intent name address mac phone)
    (hvalid : Mobile.validPhone env phone = true)
    (happly : Mobile.apply env state phone = .ok (state', changed)) :
    ∀ device ∈ state.devices, device.identity env.inet ≠ mac := by
  obtain ⟨hdevices, -⟩ := h.unused
  intro other hother hidentity
  rcases (apply_devices (stateRecord_ok h.read) hvalid happly).2 with
    ⟨-, hfound⟩ | ⟨id, device, -, hid, hnew, hadded, hdevice, hsame⟩
  · obtain ⟨device, hmem, hid⟩ := hfound _ hphone.lanDeviceId
    exact hdevices device hmem hid
  · have hmac : device.identity env.inet = mac := by
      simp [Device.identity, hsame.2.2.2, hsame.1, hphone.mac]
    have heq : other = device := by
      refine (apply_ok happly).policy.devices.eq_of_mem (k := RuleKey.identity mac) ?_ ?_ ?_ ?_
      · rw [hadded]
        exact List.mem_append_left _ hother
      · rw [hadded]
        exact List.mem_append_right _ (List.mem_singleton.2 rfl)
      · simp [Device.keys, hidentity]
      · simp [Device.keys, hmac]
    exact hnew other hother (heq ▸ hdevice)

/-- The journal is prepared and the state brought up to it. -/
def Provisions (env : Env) (intentDigest : Mobile.Intent → Text) (out : Outside) (state : State)
    (stored : List Mobile.Phone) (paired : Pairing.Session) (args : Mobile.Args)
    (base : Option Base) : Prop :=
  ∃ phones phone state' changed, Mobile.prepare env intentDigest state stored paired args base
      ⟨out.draw.device, out.draw.id, out.draw.secret⟩ = .ok (phones, phone) ∧
    Mobile.apply env state phone = .ok (state', changed)

/-- A new pairing of a phone registers if and only if the state has no device with the phone's
MAC, such as an earlier pairing of it leaves behind. -/
theorem returning_provisions_iff (hdigest : ∀ wish, (hexOf 64).accepts (intentDigest wish) = true)
    (h : Returning env out disk paired args state stored base mac) :
    Provisions env intentDigest out state stored paired args base ↔
      ∀ device ∈ state.devices, device.identity env.inet ≠ mac := by
  obtain ⟨intent, name, address, phone, hphone, hname, ⟨haddress, -⟩, hprepare⟩ :=
    h.prepare hdigest
  constructor
  · rintro ⟨phones, phone', state', changed, hprepare', happly⟩
    obtain ⟨-, rfl⟩ := Prod.mk.inj (Except.ok.inj (hprepare.symm.trans hprepare'))
    obtain ⟨-, hmem, hvalid, -⟩ := prepare_valid hprepare'
    exact h.alone hphone (hvalid _ hmem) happly
  · intro hfree
    obtain ⟨⟨state', changed⟩, happly⟩ := h.apply hphone hname haddress hfree
    exact ⟨_, phone, state', changed, hprepare, happly⟩

/-! A phone that is paired, revoked and paired again. -/

/-- The pairing under which the phone comes back. -/
def secondSession : Pairing.Session :=
  ⟨"pair-".toList ++ List.replicate 32 '2', List.replicate 64 '2'⟩

def secondPairs : Pairing.Record where
  devices := [⟨secondSession.id, secondSession.verifier, "phone".toList, 0, {}⟩]
  length_le := by decide
  valid := by decide
  nodup := by simp

def lanWish : ProvisionArgs where
  name := "phone".toList
  address := "192.168.1.2".toList
  createRemote := false

def lanArgs : Mobile.Args where
  name := "phone".toList
  address := "192.168.1.2".toList
  mac := "02:00:00:00:00:01".toList
  createRemote := false

/-- The phone as the journal keeps it under its first pairing. -/
def firstPhone : Mobile.Phone where
  pairId := phoneSession.id
  verifier := phoneSession.verifier
  intent := List.replicate 64 '0'
  name := "phone".toList
  address := "192.168.1.2".toList
  mac := "02:00:00:00:00:01".toList
  lanDeviceId := some "device-000000000001".toList

def phoneState (revision : ℕ) (devices : List Device) : State :=
  { Model.defaults with revision, devices, settings := { standaloneAccess := true } }

def phoneDisk (revision : ℕ) (devices : List Device) (mobile : List Mobile.Phone)
    (pairs : Pairing.Record) : Disk :=
  { state := (phoneState revision devices).raw, mobile, pairs }

def phoneDevice : Device := Mobile.device firstPhone "device-000000000001".toList

def repairRun : List (Request × Outside) :=
  [(.pairCreate phoneSession.id phoneSession.verifier "phone".toList 0 .missing .missing,
      phoneOutside '0' rfl),
    (.provision phoneSession lanWish, phoneOutside '1' isHex_one),
    (.pairRevoke phoneSession.id, phoneOutside '2' isHex_two),
    (.pairCreate secondSession.id secondSession.verifier "phone".toList 0 .missing .missing,
      phoneOutside '3' rfl)]

theorem repairRun_run : Run (Performs plainEnv zeroDigest) (phoneDisk 0 [] [] Pairing.defaults)
    repairRun (phoneDisk 1 [phoneDevice] [firstPhone] secondPairs) := by
  have hpair : Performs plainEnv zeroDigest (phoneDisk 0 [] [] Pairing.defaults)
      (.pairCreate phoneSession.id phoneSession.verifier "phone".toList 0 .missing .missing,
        phoneOutside '0' rfl) (phoneDisk 0 [] [] phonePairs) := by
    unfold Performs
    decide
  have hprovision : Performs plainEnv zeroDigest (phoneDisk 0 [] [] phonePairs)
      (.provision phoneSession lanWish, phoneOutside '1' rfl)
      (phoneDisk 1 [phoneDevice] [firstPhone] phonePairs) := by
    unfold Performs
    decide
  have hrevoke : Performs plainEnv zeroDigest (phoneDisk 1 [phoneDevice] [firstPhone] phonePairs)
      (.pairRevoke phoneSession.id, phoneOutside '2' rfl)
      (phoneDisk 1 [phoneDevice] [firstPhone] Pairing.defaults) := by
    unfold Performs
    decide
  have hagain : Performs plainEnv zeroDigest
      (phoneDisk 1 [phoneDevice] [firstPhone] Pairing.defaults)
      (.pairCreate secondSession.id secondSession.verifier "phone".toList 0 .missing .missing,
        phoneOutside '3' rfl) (phoneDisk 1 [phoneDevice] [firstPhone] secondPairs) := by
    unfold Performs
    decide
  exact .stepL hpair (.stepL hprovision (.stepL hrevoke (.single hagain)))

theorem lanArgs_returning {revision : ℕ} {devices : List Device} {mobile : List Mobile.Phone}
    {pairs : Pairing.Record} {paired : Pairing.Session} {out : Outside}
    (hread : stateRecord plainEnv out (phoneDisk revision devices mobile pairs) =
      .ok (phoneState revision devices))
    (hcurrent : Pairing.sessionCurrent pairs paired = true)
    (hpruned : Mobile.prune plainEnv mobile pairs = .ok [])
    (hnew : ∀ phone ∈ mobile, phone.pairId ≠ paired.id) (hlen : devices.length < 512)
    (hfresh : ∀ id ∈ out.draw.ids, id ∉ (phoneDisk revision devices mobile pairs).ids) :
    Returning plainEnv out (phoneDisk revision devices mobile pairs) paired lanArgs
      (phoneState revision devices) [] none "02:00:00:00:00:01".toList where
  read := hread
  current := hcurrent
  pruned := hpruned
  new := hnew
  name := ⟨"phone".toList, by decide⟩
  address := ⟨"192.168.1.2".toList, by decide, by decide, by decide⟩
  mac := by decide
  register := rfl
  phones := by decide
  devices := hlen
  room := nofun
  fresh := hfresh

theorem second_returning : Returning plainEnv (phoneOutside '4' rfl)
    (phoneDisk 1 [phoneDevice] [firstPhone] secondPairs) secondSession lanArgs
    (phoneState 1 [phoneDevice]) [] none "02:00:00:00:00:01".toList :=
  lanArgs_returning (by decide) (by decide) (by decide) (by decide) (by decide)
    (by decide)

/-- The device of the revoked pairing is in the way of the new one. -/
theorem repairing_broken :
    Run (Performs plainEnv zeroDigest) (phoneDisk 0 [] [] Pairing.defaults) repairRun
      (phoneDisk 1 [phoneDevice] [firstPhone] secondPairs) ∧
    Returning plainEnv (phoneOutside '4' rfl) (phoneDisk 1 [phoneDevice] [firstPhone] secondPairs)
      secondSession lanArgs (phoneState 1 [phoneDevice]) [] none "02:00:00:00:00:01".toList ∧
    ¬ Provisions plainEnv zeroDigest (phoneOutside '4' rfl) (phoneState 1 [phoneDevice]) []
      secondSession lanArgs none := by
  refine ⟨repairRun_run, second_returning, ?_⟩
  rintro ⟨phones, phone, state', changed, hprepare, happly⟩
  have hphone : Mobile.prepare plainEnv zeroDigest (phoneState 1 [phoneDevice]) [] secondSession
      lanArgs none ⟨(phoneOutside '4' rfl).draw.device, (phoneOutside '4' rfl).draw.id,
        (phoneOutside '4' rfl).draw.secret⟩ = .ok ([{ firstPhone with
          pairId := secondSession.id
          verifier := secondSession.verifier
          lanDeviceId := some "device-000000000004".toList }], { firstPhone with
          pairId := secondSession.id
          verifier := secondSession.verifier
          lanDeviceId := some "device-000000000004".toList }) := by decide
  have hrefused : Mobile.apply plainEnv (phoneState 1 [phoneDevice]) { firstPhone with
      pairId := secondSession.id
      verifier := secondSession.verifier
      lanDeviceId := some "device-000000000004".toList } = .error .duplicateRule := by
    decide
  obtain ⟨-, rfl⟩ := Prod.mk.inj (Except.ok.inj (hphone.symm.trans hprepare))
  cases hrefused.symm.trans happly

theorem zeroDigest_hex (wish : Mobile.Intent) : (hexOf 64).accepts (zeroDigest wish) = true := by
  have h : (hexOf 64).accepts (List.replicate 64 '0') = true := by decide
  exact h

/-- A device of another phone, which the owner keeps. -/
def tabletDevice : Device where
  id := "device-00000000000a".toList
  name := "tablet".toList
  address := some "192.168.1.3".toList
  mac := some "02:00:00:00:00:0a".toList
  bindMac := true
  route := .direct

/-- The settings call that deletes the device of the phone and adds another. -/
def deviceArgs : SettingsArgs where
  revision := .value 1
  settings := .value (phoneState 1 []).settings.raw
  devices := .value [tabletDevice.raw]

theorem deviceArgs_performs : Performs plainEnv zeroDigest
    (phoneDisk 1 [phoneDevice] [firstPhone] secondPairs)
    (.settings deviceArgs, phoneOutside '4' rfl)
    (phoneDisk 2 [tabletDevice] [firstPhone] secondPairs) := by
  unfold Performs
  decide

theorem third_returning : Returning plainEnv (phoneOutside '5' rfl)
    (phoneDisk 2 [tabletDevice] [firstPhone] secondPairs) secondSession lanArgs
    (phoneState 2 [tabletDevice]) [] none "02:00:00:00:00:01".toList :=
  lanArgs_returning (by decide) (by decide) (by decide) (by decide) (by decide)
    (by decide)

/-- The phone registers again once its old device is deleted. -/
theorem returned_provisions :
    Run (Performs plainEnv zeroDigest) (phoneDisk 0 [] [] Pairing.defaults)
      (repairRun ++ [(.settings deviceArgs, phoneOutside '4' rfl)])
      (phoneDisk 2 [tabletDevice] [firstPhone] secondPairs) ∧
    Provisions plainEnv zeroDigest (phoneOutside '5' rfl) (phoneState 2 [tabletDevice]) []
      secondSession lanArgs none := by
  refine ⟨repairRun_run.stepR deviceArgs_performs, ?_⟩
  apply (returning_provisions_iff zeroDigest_hex third_returning).2
  intro device hmem
  obtain rfl := List.mem_singleton.1 hmem
  decide

end Foxhole.Rpc
