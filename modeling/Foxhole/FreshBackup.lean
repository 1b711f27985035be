import Foxhole.BackupExport
import Foxhole.ProvisionRetry
import Foxhole.Revocation

/-! A backup made now, restored onto the router it was made on. -/
namespace Foxhole.FreshBackup
open Check Text Trace Rpc Backup

variable {env : Env} {js : Json} {intentDigest : Mobile.Intent → Text} {out : Outside}
  {disk disk' : Disk} {state : State} {request : Request} {world world' : World}

/-! What a call does to the phones and to the clients. -/

/-- The identifiers of the clients, with whether they own a listener. -/
def tags (clients : List Client) : List (Text × Bool) := clients.map fun c => (c.key, c.inbound)

theorem mem_tags {clients : List Client} {id : Text} {inbound : Bool} :
    (id, inbound) ∈ tags clients ↔ ∃ c ∈ clients, c.key = id ∧ c.inbound = inbound := by
  simp [tags]

theorem tags_mapFirst {p : Client → Bool} {f : Client → Client} {clients : List Client}
    (hf : ∀ c, (f c).key = c.key ∧ (f c).inbound = c.inbound) :
    tags (mapFirst p f clients) = tags clients := by
  induction clients with
  | nil => rfl
  | cons c clients ih =>
    by_cases hp : p c
    · simp [tags, mapFirst, hp, hf c]
    · simpa [tags, mapFirst, hp] using ih

/-- The calls that write the phone journal. -/
def Journals : Request → Prop
  | .deleteClient _ | .provision .. | .provisionCut .. | .setupReset _ => True
  | _ => False

theorem mobile_eq (hq : ¬ Journals request)
    (h : perform env intentDigest out disk request = .ok disk') : disk'.mobile = disk.mobile := by
  cases request with
  | settings args =>
    simp only [perform, settingsCall, bind_eq_ok, pure_eq_ok] at h
    obtain ⟨_, -, _, -, rfl⟩ := h
    rfl
  | saveServer args => exact (Revocation.saveServer_clients h).2
  | deleteServer args =>
    simp only [perform, deleteServer, bind_eq_ok, pure_eq_ok] at h
    obtain ⟨_, -, -, -, rfl⟩ := h
    rfl
  | startServer args => exact (Revocation.startServer_clients h).2
  | stopServer revision => exact (Revocation.stopServer_clients h).2
  | saveClient args =>
    simp only [perform, saveClient, bind_eq_ok, pure_eq_ok] at h
    obtain ⟨_, -, _, -, _, -, _, -, _, -, rfl⟩ := h
    rfl
  | updateClient args name =>
    simp only [perform, updateClient, bind_eq_ok, pure_eq_ok] at h
    obtain ⟨_, -, _, -, -, -, rfl⟩ := h
    rfl
  | clientAccess args allowLan =>
    simp only [perform, clientAccess, bind_eq_ok, pure_eq_ok] at h
    obtain ⟨-, -, _, -, -, -, rfl⟩ := h
    rfl
  | provisionRefused createRemote | pairCreate | pairRevoke =>
    simp only [perform, bind_eq_ok, pure_eq_ok] at h
    obtain ⟨_, -, rfl⟩ := h
    rfl
  | setPin =>
    cases h
    rfl
  | deleteClient | provision | provisionCut | setupReset => exact absurd trivial hq

/-- The calls that take a client out of the state. -/
def Removes : Request → Prop
  | .deleteClient _ | .setupReset _ => True
  | _ => False

/-- The calls that write the device list anew. -/
def Relists : Request → Prop
  | .settings _ | .setupReset _ => True
  | _ => False

/-- A call leaves the stored state, or writes one with the clients and the devices of the other
calls. -/
theorem perform_state (h : perform env intentDigest out disk request = .ok disk') :
    disk'.state = disk.state ∨ ∃ state state' : State, stateRecord env out disk = .ok state ∧
      disk'.state = state'.raw ∧ (¬ Removes request → tags state.clients ⊆ tags state'.clients) ∧
      (¬ Relists request → state.devices.map Device.id ⊆ state'.devices.map Device.id) := by
  have hrefl {α : Type} (l : List α) : l ⊆ l := List.Subset.refl l
  cases request with
  | settings args =>
    simp only [perform, settingsCall, bind_eq_ok, pure_eq_ok] at h
    obtain ⟨state, hst, _, -, rfl⟩ := h
    exact Or.inr ⟨state, _, stateAt_record hst, rfl, fun _ => hrefl _, fun hq => (hq trivial).elim⟩
  | saveServer args =>
    simp only [perform, saveServer, bind_eq_ok] at h
    obtain ⟨_, -, _, -, _, -, _, -, _, -, state, hst, h⟩ := h
    split at h
    · cases h
      exact Or.inr ⟨state, _, stateAt_record hst, rfl, fun _ => hrefl _, fun _ => hrefl _⟩
    · simp only [bind_eq_ok, pure_eq_ok] at h
      obtain ⟨-, -, rfl⟩ := h
      exact Or.inr ⟨state, _, stateAt_record hst, rfl, fun _ => hrefl _, fun _ => hrefl _⟩
  | deleteServer args =>
    simp only [perform, deleteServer, bind_eq_ok, pure_eq_ok] at h
    obtain ⟨state, hst, -, -, rfl⟩ := h
    refine Or.inr ⟨state, _, stateAt_record hst, rfl, fun _ tag ht => ?_, fun _ => hrefl _⟩
    obtain ⟨c, hc, rfl⟩ := List.mem_map.1 ht
    refine mem_tags.2 ⟨_, List.mem_map_of_mem hc, ?_, ?_⟩ <;> split <;> rfl
  | startServer args =>
    simp only [perform, startServer, bind_eq_ok] at h
    obtain ⟨state, hst, h⟩ := h
    split at h
    · simp at h
    · simp only [bind_eq_ok] at h
      obtain ⟨-, -, h⟩ := h
      split at h <;> cases h
      · exact Or.inl rfl
      · exact Or.inr ⟨state, _, stateAt_record hst, rfl, fun _ => hrefl _, fun _ => hrefl _⟩
  | stopServer revision =>
    simp only [perform, stopServer, bind_eq_ok] at h
    obtain ⟨state, hst, h⟩ := h
    split at h <;> cases h
    · exact Or.inl rfl
    · exact Or.inr ⟨state, _, stateForRevocation_record hst, rfl, fun _ => hrefl _,
        fun _ => hrefl _⟩
  | saveClient args =>
    simp only [perform, saveClient, bind_eq_ok, pure_eq_ok] at h
    obtain ⟨name, -, -, -, state, hst, serverId, -, client, -, rfl⟩ := h
    exact Or.inr ⟨state, _, stateAt_record hst, rfl,
      fun _ => List.map_subset _ (List.subset_append_left _ _), fun _ => hrefl _⟩
  | updateClient args name =>
    simp only [perform, updateClient, bind_eq_ok, pure_eq_ok] at h
    obtain ⟨n, -, state, hst, -, -, rfl⟩ := h
    exact Or.inr ⟨state, _, stateAt_record hst, rfl,
      fun _ tag ht => (tags_mapFirst (f := fun c => { c with name := .value n })
        fun _ => ⟨rfl, rfl⟩).symm ▸ ht, fun _ => hrefl _⟩
  | clientAccess args allowLan =>
    simp only [perform, clientAccess, bind_eq_ok, pure_eq_ok] at h
    obtain ⟨-, -, state, hst, -, -, rfl⟩ := h
    exact Or.inr ⟨state, _, stateForRevocation_record hst, rfl,
      fun _ tag ht => (tags_mapFirst (f := fun c => { c with allowLan := .value allowLan })
        fun _ => ⟨rfl, rfl⟩).symm ▸ ht, fun _ => hrefl _⟩
  | deleteClient args =>
    simp only [perform, map_eq_ok] at h
    obtain ⟨⟨d, revoked⟩, hd, rfl⟩ := h
    simp only [deleteClient, bind_eq_ok] at hd
    obtain ⟨state, hst, hd⟩ := hd
    have hst := stateForRevocation_record hst
    split at hd
    · simp at hd
    · split at hd
      · simp only [bind_eq_ok, pure_eq_ok] at hd
        obtain ⟨phones, -, hd⟩ := hd
        cases hd
        exact Or.inr ⟨state, _, hst, rfl, fun hq => (hq trivial).elim, fun _ => hrefl _⟩
      · cases hd
        exact Or.inr ⟨state, _, hst, rfl, fun hq => (hq trivial).elim, fun _ => hrefl _⟩
  | provision paired args =>
    simp only [perform, map_eq_ok] at h
    obtain ⟨p, hp, rfl⟩ := h
    by_cases hchanged : p.changed
    · obtain ⟨-, state, stored, prepared, hst, -, -, happ⟩ := provision_parts hp
      refine Or.inr ⟨state, p.state, hst, by simp [Provision.files, hchanged], fun _ => ?_,
        fun _ => ?_⟩
      · rcases apply_clients happ with he | ⟨-, id, -, -, he⟩ <;> rw [he]
        · exact hrefl _
        · exact List.map_subset _ (List.subset_append_left _ _)
      · rcases (apply_devices (stateRecord_ok hst) (provision_valid hp) happ).2 with
          ⟨he, -⟩ | ⟨_, _, -, -, -, he, -⟩ <;> rw [he]
        · exact hrefl _
        · exact List.map_subset _ (List.subset_append_left _ _)
    · exact Or.inl (by simp [Provision.files, hchanged])
  | provisionCut paired args =>
    simp only [perform, map_eq_ok] at h
    obtain ⟨p, -, rfl⟩ := h
    exact Or.inl rfl
  | setupReset revision =>
    simp only [perform, setupReset, bind_eq_ok, pure_eq_ok] at h
    obtain ⟨state, hst, -, -, rfl⟩ := h
    exact Or.inr ⟨state, _, stateAt_record hst, rfl, fun hq => (hq trivial).elim,
      fun hq => (hq trivial).elim⟩
  | provisionRefused createRemote | pairCreate | pairRevoke =>
    simp only [perform, bind_eq_ok, pure_eq_ok] at h
    obtain ⟨_, -, rfl⟩ := h
    exact Or.inl rfl
  | setPin =>
    cases h
    exact Or.inl rfl

/-- The clients that are there stay, under their identifiers. -/
theorem tags_subset (hq : ¬ Removes request)
    (h : perform env intentDigest out disk request = .ok disk') :
    tags disk.clients ⊆ tags disk'.clients := by
  rcases perform_state h with he | ⟨state, state', hst, he, hkept, -⟩
  · simp only [Disk.clients, he]
    exact List.Subset.refl _
  · have hclients : disk'.clients = state'.clients := by simp [Disk.clients, he, State.raw]
    rw [(stateRecord_lists hst).2, hclients]
    exact hkept hq

/-- The identifiers of the stored devices. -/
def deviceIds (disk : Disk) : List Text := disk.devices.map RawDevice.id

theorem deviceIds_raw {state : State} (h : disk.state = state.raw) :
    deviceIds disk = state.devices.map Device.id := by
  simp [deviceIds, Disk.devices, h, State.raw, Policy.raw, Device.raw]

theorem deviceIds_write : deviceIds (disk.write state) = state.devices.map Device.id :=
  deviceIds_raw rfl

theorem deviceIds_record (h : stateRecord env out disk = .ok state) :
    deviceIds disk = state.devices.map Device.id := by
  obtain ⟨stored, hstored, hdevices, -⟩ := stateRecord_file h
  rw [hdevices]
  exact validateState_deviceIds hstored

theorem deviceIds_subset (hq : ¬ Relists request)
    (h : perform env intentDigest out disk request = .ok disk') :
    deviceIds disk ⊆ deviceIds disk' := by
  rcases perform_state h with he | ⟨state, state', hst, he, -, hkept⟩
  · simp only [deviceIds, Disk.devices, he]
    exact List.Subset.refl _
  · rw [deviceIds_record hst, deviceIds_raw he]
    exact hkept hq

/-- A settings call writes the devices it is given. -/
theorem settings_deviceIds {args : SettingsArgs} (h : settingsCall env out disk args = .ok disk') :
    deviceIds disk' = (args.devices.value?.getD []).map RawDevice.id := by
  simp only [settingsCall, bind_eq_ok, pure_eq_ok] at h
  obtain ⟨state, -, checked, hchecked, rfl⟩ := h
  rw [validateSettings_deviceIds hchecked]
  exact deviceIds_write

/-! The journal stays valid, and agrees with the clients. -/

/-- Two phones of a journal that share an identifier are the same. -/
theorem phone_of_key {phones : List Mobile.Phone} (hn : (phones.flatMap Mobile.Phone.keys).Nodup)
    {a b : Mobile.Phone} {key : Text} (ha : a ∈ phones) (hb : b ∈ phones) (hka : key ∈ a.keys)
    (hkb : key ∈ b.keys) : a = b := by
  induction phones with
  | nil => cases ha
  | cons c phones ih =>
    rw [List.flatMap_cons, List.nodup_append] at hn
    obtain ⟨-, hrest, hdisjoint⟩ := hn
    have hne {d : Mobile.Phone} (hc : key ∈ c.keys) (hd : d ∈ phones)
        (hkd : key ∈ d.keys) : False :=
      hdisjoint key hc key (List.mem_flatMap.2 ⟨d, hd, hkd⟩) rfl
    rcases List.mem_cons.1 ha with hac | ha <;> rcases List.mem_cons.1 hb with hbc | hb
    · rw [hac, hbc]
    · exact (hne (hac ▸ hka) hb hkb).elim
    · exact (hne (hbc ▸ hkb) ha hka).elim
    · exact ih hrest ha hb

theorem remote_mem_keys {phone : Mobile.Phone} {id : Text} (h : phone.remoteClientId = some id) :
    id ∈ phone.keys := by simp [Mobile.Phone.keys, h]

theorem journal_revokePhones {phones : List Mobile.Phone} {id : Text}
    (h : Mobile.journal env phones = .ok phones) :
    Mobile.journal env (revokePhones phones id) = .ok (revokePhones phones id) := by
  simp only [Mobile.journal, bind_eq_ok, require_eq_ok, pure_eq_ok] at h ⊢
  obtain ⟨-, hlen, -, hvalid, -, hnodup, -⟩ := h
  refine ⟨(), by simpa [revokePhones] using hlen, (), fun phone hp => ?_, (), ?_, trivial⟩
  · obtain ⟨old, ho, rfl⟩ := List.mem_map.1 hp
    have := hvalid old ho
    split
    · exact this
    · exact this
  · have hkeys : (revokePhones phones id).flatMap Mobile.Phone.keys =
        phones.flatMap Mobile.Phone.keys := by
      rw [revokePhones, List.flatMap_map]
      congr 1
      funext phone
      split <;> rfl
    rw [hkeys]
    exact hnodup

theorem journal_prepare {stored phones : List Mobile.Phone} {phone : Mobile.Phone}
    {paired : Pairing.Session} {args : Mobile.Args} {base : Option Base} {random : Mobile.Random}
    (h : Mobile.prepare env intentDigest state stored paired args base random = .ok
      (phones, phone)) :
    Mobile.journal env phones = .ok phones := by
  simp only [Mobile.prepare, bind_eq_ok] at h
  obtain ⟨l, hl, -, -, name, -, address, -, -, -, mac, -, register, -, h⟩ := h
  cases hfind : l.find? (·.pairId = paired.id) with
  | some found =>
    simp only [hfind, bind_eq_ok, pure_eq_ok] at h
    obtain ⟨-, -, -, -, he⟩ := h
    cases he
    obtain rfl := journal_eq hl
    exact hl
  | none =>
    simp only [hfind, bind_eq_ok, pure_eq_ok] at h
    obtain ⟨-, -, new, -, phones', hphones, he⟩ := h
    cases he
    obtain rfl := journal_eq hphones
    exact hphones

theorem newPhone_revoked {paired : Pairing.Session} {intent address : Text} {wish : Mobile.Intent}
    {base : Option Base} {random : Mobile.Random} {phone : Mobile.Phone}
    (h : Mobile.newPhone state paired intent address wish base random = .ok phone) :
    phone.remoteRevoked = false := by
  simp only [Mobile.newPhone] at h
  split at h
  · cases base with
    | none => cases h
    | some base =>
      simp only [Mobile.newListener, bind_eq_ok, pure_eq_ok] at h
      obtain ⟨-, -, -, -, rfl⟩ := h
      rfl
  · cases h
    rfl

/-- A phone that a provision writes was there, or is the one it answers for. -/
theorem provision_mobile {paired : Pairing.Session} {args : ProvisionArgs} {p : Provision}
    (h : prepareProvision env intentDigest out disk paired args = .ok p) :
    ∀ phone ∈ p.phones, phone ∈ disk.mobile ∨ phone = p.phone ∧ phone.remoteRevoked = false := by
  obtain ⟨-, state, stored, prepared, -, hprune, hprep, -⟩ := provision_parts h
  intro phone hp
  rcases prepare_phone hprep with ⟨-, hphones⟩ | ⟨⟨wish, address, -, hnew⟩, hphones⟩
  · exact Or.inl (prune_mem hprune (hphones ▸ hp))
  · rw [hphones] at hp
    rcases List.mem_append.1 hp with hp | hp
    · exact Or.inl (prune_mem hprune hp)
    · obtain rfl := List.mem_singleton.1 hp
      exact Or.inr ⟨rfl, newPhone_revoked hnew⟩

/-- The journal is valid; the client of each phone is in the state, or the phone is marked and it
is not. -/
structure Bound (env : Env) (intentDigest : Mobile.Intent → Text) (world : World) : Prop where
  valid : Mobile.journal env world.disk.mobile = .ok world.disk.mobile
  asked : Revocation.Journalled intentDigest world
  live : ∀ phone ∈ world.disk.mobile, phone.remoteRevoked = false →
    ∀ id ∈ phone.remoteClientId, (id, true) ∈ tags world.disk.clients
  gone : ∀ phone ∈ world.disk.mobile, phone.remoteRevoked = true →
    ∀ id ∈ phone.remoteClientId, ∀ client ∈ world.disk.clients, client.key ≠ id

/-- A client that a marked phone had does not come back. -/
theorem gone_step
    (hsep : ∀ a b : Mobile.Intent, intentDigest a = intentDigest b →
      a.createRemote = b.createRemote)
    (hf : Fresh world out.draw) (hb : Bound env intentDigest world)
    (h : perform env intentDigest out world.disk request = .ok disk')
    {phone : Mobile.Phone} {id : Text}
    (hp : phone ∈ world.disk.mobile) (hr : phone.remoteRevoked = true)
    (hid : phone.remoteClientId = some id) : ∀ client ∈ disk'.clients, client.key ≠ id := by
  intro client hc hk
  obtain ⟨hissued, wish, hw, hwish⟩ := hb.asked phone hp id hid
  rcases Revocation.perform_origin h client hc with ⟨old, ho, hok, -⟩ | hd |
    ⟨other, wish', ho, hoid, hother, hnot⟩
  · exact hb.gone phone hp hr id hid old ho (hok.trans hk)
  · exact Revocation.drawn_ne hf hissued (hk.symm.trans hd)
  · -- only the phone itself could ask for its client, and it is marked
    obtain rfl : other = phone := phone_of_key (journal_valid hb.valid).2 ho hp
      (remote_mem_keys (hk ▸ hoid)) (remote_mem_keys hid)
    exact hnot ⟨(hsep _ _ (hother.symm.trans hwish)).trans hw, hr⟩

/-- The deleted client owned a listener if and only if its phones are marked. -/
theorem deleteClient_inbound {args : IdArgs} {revoked : Bool}
    (h : deleteClient env out disk args = .ok (disk', revoked)) :
    ∀ client ∈ disk.clients, client.key = args.id → client.inbound = revoked := by
  simp only [deleteClient, bind_eq_ok] at h
  obtain ⟨state, hst, h⟩ := h
  have hst := stateForRevocation_record hst
  rw [(stateRecord_lists hst).2]
  intro client hc hk
  split at h
  · simp at h
  · rename_i found hfound
    have hkey : found.key = args.id := by simpa using List.find?_some hfound
    obtain rfl := client_unique (stateRecord_ok hst) hc (List.mem_of_find?_eq_some hfound)
      (hk.trans hkey.symm)
    split at h
    · simp only [bind_eq_ok, pure_eq_ok] at h
      obtain ⟨_, _, he⟩ := h
      cases he
      assumption
    · cases h
      simpa using ‹¬ client.inbound = true›

/-- Deleting a client takes no other one away. -/
theorem tags_deleteClient {args : IdArgs} {revoked : Bool} {id : Text} {inbound : Bool}
    (h : deleteClient env out disk args = .ok (disk', revoked)) (hne : id ≠ args.id)
    (ht : (id, inbound) ∈ tags disk.clients) : (id, inbound) ∈ tags disk'.clients := by
  obtain ⟨client, hc, rfl, hi⟩ := mem_tags.1 ht
  rw [(Revocation.deleteClient_ok h).1]
  exact mem_tags.2 ⟨client, (List.mem_eraseP_of_neg (by simpa using hne)).2 hc, rfl, hi⟩

theorem deleteClient_bound
    (hsep : ∀ a b : Mobile.Intent, intentDigest a = intentDigest b →
      a.createRemote = b.createRemote)
    {args : IdArgs} (hf : Fresh world out.draw) (hb : Bound env intentDigest world)
    (h : perform env intentDigest out world.disk (.deleteClient args) = .ok disk')
    (hj : Revocation.Journalled intentDigest ⟨disk', out.draw.ids ++ world.issued⟩) :
    Bound env intentDigest ⟨disk', out.draw.ids ++ world.issued⟩ := by
  have hperform := h
  simp only [perform, map_eq_ok] at h
  obtain ⟨⟨disk'', revoked⟩, hd, rfl⟩ := h
  have hmobile := (Revocation.deleteClient_ok hd).2
  have hinbound := deleteClient_inbound hd
  cases revoked with
  | false =>
    have hmobile : disk''.mobile = world.disk.mobile := hmobile
    refine ⟨hmobile ▸ hb.valid, hj, fun phone hp hr id hid => ?_, fun phone hp hr id hid => ?_⟩
    · have ht := hb.live phone (hmobile ▸ hp) hr id hid
      refine tags_deleteClient hd (fun he => ?_) ht
      obtain ⟨client, hc, hk, hi⟩ := mem_tags.1 ht
      exact absurd (hinbound client hc (hk.trans he)) (by simp [hi])
    · exact gone_step hsep hf hb hperform (hmobile ▸ hp) hr hid
  | true =>
    have hmobile : disk''.mobile = revokePhones world.disk.mobile args.id := hmobile
    refine ⟨?_, hj, fun phone hp hr id hid => ?_, fun phone hp hr id hid => ?_⟩
    · show Mobile.journal env disk''.mobile = .ok disk''.mobile
      rw [hmobile]
      exact journal_revokePhones hb.valid
    · obtain ⟨old, ho, hoid, -, hmark, hnew⟩ := Revocation.mem_revokePhones (hmobile ▸ hp)
      have hne : id ≠ args.id := by
        rintro rfl
        exact absurd (hnew hid) (by simp [hr])
      have hold : old.remoteRevoked = false := by
        by_contra hc
        exact absurd (hmark (by simpa using hc)) (by simp [hr])
      exact tags_deleteClient hd hne (hb.live old ho hold id (hoid.trans hid))
    · obtain ⟨old, ho, rfl⟩ := List.mem_map.1 (hmobile ▸ hp)
      by_cases hold : old.remoteClientId = some args.id
      · simp only [hold, if_true] at hid
        obtain rfl := Option.some.inj (hid : some args.id = some id)
        exact Revocation.deleteClient_absent hd
      · simp only [hold, if_false] at hid hr
        exact gone_step hsep hf hb hperform ho hr hid

theorem provision_bound
    (hsep : ∀ a b : Mobile.Intent, intentDigest a = intentDigest b →
      a.createRemote = b.createRemote)
    {paired : Pairing.Session} {args : ProvisionArgs} (hf : Fresh world out.draw)
    (hb : Bound env intentDigest world)
    (h : perform env intentDigest out world.disk (.provision paired args) = .ok disk')
    (hj : Revocation.Journalled intentDigest ⟨disk', out.draw.ids ++ world.issued⟩) :
    Bound env intentDigest ⟨disk', out.draw.ids ++ world.issued⟩ := by
  have hperform := h
  have hkept := tags_subset (by simp [Removes]) h
  simp only [perform, map_eq_ok] at h
  obtain ⟨p, hp, rfl⟩ := h
  have hold := provision_mobile hp
  refine ⟨?_, hj, fun phone hphone hr id hid => ?_, fun phone hphone hr id hid => ?_⟩
  · obtain ⟨-, _, _, _, -, -, hprep, -⟩ := provision_parts hp
    exact journal_prepare hprep
  · rcases hold phone hphone with ho | ⟨rfl, -⟩
    · exact hkept (hb.live phone ho hr id hid)
    · obtain ⟨file, hfile, hsettled⟩ := provision_settles hp
      obtain ⟨⟨client, hc, hk⟩, hsame⟩ := hsettled.client id hid
      have hclients : (p.files world.disk).clients = file.clients := by
        simp [Disk.clients, (validateState_lists hfile).2]
      exact mem_tags.2 ⟨client, hclients ▸ hc, hk, (hsame client hc hk).1⟩
  · rcases hold phone hphone with ho | ⟨-, hnew⟩
    · exact gone_step hsep hf hb hperform ho hr hid
    · exact absurd hr (by simp [hnew])

/-- Every call but a provision that stops between its writes. -/
def Whole : Request → Prop
  | .provisionCut .. => False
  | _ => True

theorem bound_step
    (hsep : ∀ a b : Mobile.Intent, intentDigest a = intentDigest b →
      a.createRemote = b.createRemote)
    (hw : Whole request) (h : Rpc.Step env intentDigest world (request, out) world')
    (hb : Bound env intentDigest world) : Bound env intentDigest world' := by
  have hj : Revocation.Journalled intentDigest world' :=
    Revocation.journalled_step
      (show Revocation.Step env Revocation.shortJson intentDigest ⟨world, []⟩ _
      ⟨world', []⟩ from .call h) hb.asked
  obtain ⟨hf, hp⟩ := h
  by_cases hq : Journals request
  · cases request with
    | deleteClient args => exact deleteClient_bound hsep hf hb hp hj
    | provision paired args => exact provision_bound hsep hf hb hp hj
    | provisionCut => exact hw.elim
    | setupReset revision =>
      simp only [perform, setupReset, bind_eq_ok, pure_eq_ok] at hp
      obtain ⟨_, -, -, -, rfl⟩ := hp
      exact ⟨by simp [Mobile.journal, require], hj, by simp, by simp⟩
    | _ => exact hq.elim
  · have hmobile := mobile_eq hq hp
    have hkept := tags_subset
      (fun hr => hq (by cases request <;> first | exact trivial | exact hr)) hp
    refine ⟨?_, hj, fun phone hphone hr id hid => ?_, fun phone hphone hr id hid => ?_⟩
    · exact hmobile ▸ hb.valid
    · exact hkept (hb.live phone (hmobile ▸ hphone) hr id hid)
    · exact gone_step hsep hf hb hp (hmobile ▸ hphone) hr hid

/-! The LAN devices of the phones, which only a settings call can take away. -/

/-- The LAN device of every phone of the journal is in the state. -/
def LanDevices (phones : List Mobile.Phone) (state : State) : Prop :=
  ∀ phone ∈ phones, ∀ id ∈ phone.lanDeviceId, ∃ device ∈ state.devices, device.id = id

/-- The LAN device of every phone of the journal is in the file. -/
def Registered (world : World) : Prop :=
  ∀ phone ∈ world.disk.mobile, ∀ id ∈ phone.lanDeviceId, id ∈ deviceIds world.disk

/-- A settings call names the LAN device of every phone of the journal. -/
def Names (world : World) : Request × Outside → Prop
  | (.settings args, _) => ∀ phone ∈ world.disk.mobile, ∀ id ∈ phone.lanDeviceId,
    id ∈ (args.devices.value?.getD []).map RawDevice.id
  | _ => True

theorem registered_step (hw : Whole request) (hn : Names world (request, out))
    (h : Rpc.Step env intentDigest world (request, out) world') (hr : Registered world) :
    Registered world' := by
  obtain ⟨-, hp⟩ := h
  rename_i disk
  have hkept (hq : ¬ Relists request) {phone : Mobile.Phone} (ho : phone ∈ world.disk.mobile)
      {id : Text} (hid : id ∈ phone.lanDeviceId) : id ∈ deviceIds disk :=
    deviceIds_subset hq hp (hr phone ho id hid)
  by_cases hq : Journals request
  · cases request with
    | deleteClient args =>
      have hmobile := hp
      simp only [perform, map_eq_ok] at hmobile
      obtain ⟨⟨d, revoked⟩, hd, rfl⟩ := hmobile
      intro phone hphone id hid
      have hphone : phone ∈ d.mobile := hphone
      rw [(Revocation.deleteClient_ok hd).2] at hphone
      split at hphone
      · obtain ⟨old, ho, rfl⟩ := List.mem_map.1 hphone
        refine hkept (by simp [Relists]) ho ?_
        split at hid <;> exact hid
      · exact hkept (by simp [Relists]) hphone hid
    | provision paired args =>
      have hmobile := hp
      simp only [perform, map_eq_ok] at hmobile
      obtain ⟨p, hprovision, rfl⟩ := hmobile
      intro phone hphone id hid
      rcases provision_mobile hprovision phone hphone with ho | ⟨rfl, -⟩
      · exact hkept (by simp [Relists]) ho hid
      · obtain ⟨file, hfile, hsettled⟩ := provision_settles hprovision
        obtain ⟨device, hd, rfl⟩ := (hsettled.device id hid).1
        show device.id ∈ deviceIds (p.files world.disk)
        rw [deviceIds, validateState_deviceIds hfile]
        exact List.mem_map_of_mem hd
    | provisionCut => exact hw.elim
    | setupReset revision =>
      simp only [perform, setupReset, bind_eq_ok, pure_eq_ok] at hp
      obtain ⟨_, -, -, -, rfl⟩ := hp
      simp [Registered]
    | _ => exact hq.elim
  · have hmobile := mobile_eq hq hp
    intro phone hphone id hid
    have hphone : phone ∈ world.disk.mobile := hmobile ▸ hphone
    by_cases hrelists : Relists request
    · cases request with
      | settings args =>
        show id ∈ deviceIds disk
        rw [settings_deviceIds hp]
        exact hn phone hphone id hid
      | setupReset => exact absurd trivial hq
      | _ => exact hrelists.elim
    · exact hkept hrelists hphone hid

/-! The restore of a document just exported. -/

variable {panel : Panel} {enabled : Bool} {now : ℤ} {checked : Checked}

/-- What is exported is the state under the switch of the panel, and is accepted as a document. -/
theorem exportDocument_ok (hok : state.Ok env)
    (h : exportDocument env js state panel enabled now = .ok checked) :
    checked = ⟨now, setAccess state panel.access, panel, enabled⟩ ∧
      checkState env js state.raw = .ok state ∧
      validateDocument env js checked.document = .ok checked := by
  simp only [exportDocument, bind_eq_ok] at h
  obtain ⟨found, hfound, h⟩ := h
  obtain rfl := checkState_raw hok hfound
  obtain ⟨-, -, hcreated, henabled, -, hstate, -, hpanel, -⟩ := validateDocument_eq_ok.1 h
  have hchecked : checked = ⟨now, setAccess found panel.access, panel, enabled⟩ := by
    obtain ⟨created, state, panel', enabled'⟩ := checked
    obtain rfl : state = _ := checkState_raw (setAccess_ok hok) hstate
    cases hcreated
    cases henabled
    cases hpanel
    rfl
  refine ⟨hchecked, hfound, ?_⟩
  rw [hchecked] at h ⊢
  exact h

/-- Of a journal that agrees with the clients, only the LAN devices can be refused. -/
theorem boundRecords_iff (access : Bool) (hok : state.Ok env) (hb : Bound env intentDigest world)
    (hclients : world.disk.clients = state.clients) :
    boundRecords env (setAccess state access) state world.disk.mobile = .ok () ↔
      LanDevices world.disk.mobile state := by
  have hdevices : (state.devices.map Device.id).Nodup :=
    hok.policy.devices.nodup_map (k := RuleKey.id) fun _ => by simp [Device.keys]
  have hkeys : (state.clients.map Client.key).Nodup :=
    hok.clients.nodup_map (k := id) fun _ => by simp [Client.keys]
  have hclient : ∀ phone ∈ world.disk.mobile,
      boundClient (setAccess state access) state phone = true := by
    intro phone hp
    cases hid : phone.remoteClientId with
    | none => simp [boundClient, hid]
    | some id =>
      cases hr : phone.remoteRevoked with
      | true =>
        have hgone := hb.gone phone hp hr id hid
        rw [hclients] at hgone
        simpa [boundClient, hid, hr, setAccess] using hgone
      | false =>
        obtain ⟨client, hc, hk, -⟩ := mem_tags.1 (hb.live phone hp hr id hid)
        have hone := (Keyed.length_filter_key_eq_one hkeys).2
          (List.mem_map.2 ⟨client, hclients ▸ hc, hk⟩)
        simp [boundClient, hid, hr, setAccess, bound, hone]
  have hdevice (phone : Mobile.Phone) : boundDevice (setAccess state access) state phone = true ↔
      ∀ id ∈ phone.lanDeviceId, ∃ device ∈ state.devices, device.id = id := by
    cases hid : phone.lanDeviceId with
    | none => simp [boundDevice, hid]
    | some id =>
      have hone := Keyed.length_filter_key_eq_one (k := id) hdevices
      simpa [boundDevice, hid, setAccess, bound] using hone
  simp only [boundRecords, bind_eq_ok, hb.valid, require_eq_ok]
  constructor
  · rintro ⟨_, ⟨⟩, h⟩ phone hp
    exact (hdevice phone).1 (h phone hp).2
  · intro h
    exact ⟨_, rfl, fun phone hp => ⟨hclient phone hp, (hdevice phone).2 (h phone hp)⟩⟩

/-- The state one revision on, under the switch of the panel. -/
def next (state : State) (panel : Panel) : State :=
  { setAccess state panel.access with revision := state.revision + 1 }

theorem next_of_access (h : panel.access = state.settings.standaloneAccess) :
    next state panel = { state with revision := state.revision + 1 } := by
  simp [next, setAccess, h]

theorem candidate_iff (hok : state.Ok env) (hb : Bound env intentDigest world)
    (hclients : world.disk.clients = state.clients) (hrevision : state.revision < 0x7ffffffe)
    (hexport : exportDocument env js state panel enabled now = .ok checked) (value : Checked) :
    candidate env js checked.document state world.disk.mobile = .ok value ↔
      LanDevices world.disk.mobile state ∧ js.stateFits (next state panel).raw = true ∧
      value = { checked with state := next state panel } := by
  obtain ⟨hchecked, hlive, hdocument⟩ := exportDocument_ok hok hexport
  have hstate : checked.state = setAccess state panel.access := by rw [hchecked]
  have hbound := boundRecords_iff panel.access hok hb hclients
  simp only [candidate, bind_eq_ok, require_eq_ok, pure_eq_ok]
  constructor
  · rintro ⟨_, hc, live, hl, _, -, ⟨⟩, hrecords, _, hfits, rfl⟩
    obtain rfl := Except.ok.inj (hdocument.symm.trans hc)
    obtain rfl := Except.ok.inj (hlive.symm.trans hl)
    rw [hstate] at hrecords hfits ⊢
    exact ⟨hbound.1 hrecords, hfits, rfl⟩
  · rintro ⟨hlan, hfits, rfl⟩
    refine ⟨checked, hdocument, state, hlive, (), hrevision, (), ?_, (), ?_, ?_⟩
    · rw [hstate]
      exact hbound.2 hlan
    · rw [hstate]
      exact hfits
    · rw [hstate]
      rfl

/-! A phone with a LAN device, and settings saved behind it. -/

/-- The phone asks for its LAN device only. -/
def lanWish : ProvisionArgs := { remoteWish with registerPhone := .missing, createRemote := false }

def lanPhone : Mobile.Phone where
  pairId := phoneSession.id
  verifier := phoneSession.verifier
  intent := List.replicate 64 '0'
  name := "phone".toList
  address := "192.168.1.2".toList
  mac := "02:00:00:00:00:01".toList
  lanDeviceId := some "device-000000000001".toList

def lanDevice : Device := Mobile.device lanPhone "device-000000000001".toList

def lanState (revision : ℕ) (devices : List Device) : State :=
  { Model.defaults with revision, devices }

def lanDisk (revision : ℕ) (devices : List Device) (mobile : List Mobile.Phone) : Disk :=
  ⟨(lanState revision devices).raw, mobile, phonePairs, none⟩

/-- The settings page, saved with these devices. -/
def saveDevices (devices : List Device) : SettingsArgs where
  revision := .value 1
  settings := .value Model.defaults.settings.raw
  devices := .value (devices.map Device.raw)

theorem provision_lan : perform plainEnv Revocation.remoteDigest (phoneOutside '1' rfl)
    (lanDisk 0 [] []) (.provision phoneSession lanWish) = .ok
    (lanDisk 1 [lanDevice] [lanPhone]) := by
  decide

theorem save_device : perform plainEnv Revocation.remoteDigest (phoneOutside '2' rfl)
    (lanDisk 1 [lanDevice] [lanPhone]) (.settings (saveDevices [lanDevice])) =
    .ok (lanDisk 2 [lanDevice] [lanPhone]) := by decide

theorem save_none : perform plainEnv Revocation.remoteDigest (phoneOutside '2' rfl)
    (lanDisk 1 [lanDevice] [lanPhone]) (.settings (saveDevices [])) =
    .ok (lanDisk 2 [] [lanPhone]) := by decide

def lanChecked (devices : List Device) : Checked := ⟨0, lanState 2 devices, {}, false⟩

/-- In every run of calls from an empty journal, the document of the state restores if and only if
the state has the LAN device of every phone of the journal and still fits one revision on; it gives
the state one revision on, under the switch of the panel. The devices are there as long as the
settings calls name them. -/
theorem fresh_backup {start world : World} {calls : List (Request × Outside)}
    (hsep : ∀ a b : Mobile.Intent, intentDigest a = intentDigest b →
      a.createRemote = b.createRemote)
    (hstart : start.disk.mobile = []) (hwhole : ∀ call ∈ calls, Whole call.1)
    (hrun : Run (Rpc.Step env intentDigest) start calls world)
    (hstate : Model.validateState env world.disk.state = .ok state)
    (js : Json) (panel : Panel) (enabled : Bool) (now : ℤ) (checked : Checked)
    (hexport : exportDocument env js state panel enabled now = .ok checked)
    (hrevision : state.revision < 0x7ffffffe) :
    (∀ value, candidate env js checked.document state world.disk.mobile = .ok value ↔
      LanDevices world.disk.mobile state ∧ js.stateFits (next state panel).raw = true ∧
      value = { checked with state := next state panel }) ∧
    (panel.access = state.settings.standaloneAccess →
      next state panel = { state with revision := state.revision + 1 }) ∧
    (Run (Guarded Names (Rpc.Step env intentDigest)) start calls world →
      LanDevices world.disk.mobile state) := by
  have hb₀ : Bound env intentDigest start := by
    refine ⟨?_, ?_, ?_, ?_⟩ <;> simp [hstart, Mobile.journal, require, Revocation.Journalled]
  have hb := hrun.invariant_labels (I := Bound env intentDigest)
      (C := fun call : Request × Outside => Whole call.1)
    (fun _ _ _ hw hb hstep => bound_step hsep hw hstep hb) hwhole hb₀
  have hclients : world.disk.clients = state.clients := by
    simp [Disk.clients, (validateState_lists hstate).2]
  refine ⟨candidate_iff (Model.validateState_ok hstate) hb hclients hrevision hexport,
    next_of_access, fun hguarded => ?_⟩
  have hregistered := hguarded.invariant_labels (I := Registered)
      (C := fun call : Request × Outside => Whole call.1)
    (fun _ _ _ hw hr hstep => registered_step hw hstep.1 hstep.2 hr) hwhole
    (by simp [Registered, hstart])
  intro phone hp id hid
  have hmem := hregistered phone hp id hid
  rw [deviceIds, validateState_deviceIds hstate] at hmem
  exact List.mem_map.1 hmem

def lanDraws : List Text := (plainDraw '2' isHex_two).ids ++ ((plainDraw '1' isHex_one).ids ++ [])

/-- The settings name the device of the phone, and the backup restores. -/
theorem fresh_backup_lan :
    candidate plainEnv Revocation.shortJson (lanChecked [lanDevice]).document
      (lanState 2 [lanDevice])
      [lanPhone] = .ok { lanChecked [lanDevice] with state := lanState 3 [lanDevice] } := by
  have hprovision : Names ⟨lanDisk 0 [] [], []⟩
      (.provision phoneSession lanWish, phoneOutside '1' rfl) := trivial
  have hnames : Names ⟨lanDisk 1 [lanDevice] [lanPhone], (plainDraw '1' rfl).ids ++ []⟩
      (.settings (saveDevices [lanDevice]), phoneOutside '2' rfl) := by
    unfold Names
    decide
  have hrun : Run (Guarded Names (Rpc.Step plainEnv Revocation.remoteDigest)) ⟨lanDisk 0 [] [], []⟩
      [(.provision phoneSession lanWish, phoneOutside '1' rfl),
        (.settings (saveDevices [lanDevice]), phoneOutside '2' rfl)]
      ⟨lanDisk 2 [lanDevice] [lanPhone], lanDraws⟩ :=
    .stepL ⟨hprovision, .call (by unfold Fresh; decide) provision_lan⟩
      (.stepL ⟨hnames, .call (by unfold Fresh; decide) save_device⟩ (.refl _))
  have hstate : Model.validateState plainEnv (lanState 2 [lanDevice]).raw =
      .ok (lanState 2 [lanDevice]) := by decide
  obtain ⟨hiff, -, hlan⟩ := fresh_backup Revocation.remoteDigest_separates rfl (by simp [Whole])
    hrun.of_guarded hstate Revocation.shortJson {} false 0 (lanChecked [lanDevice])
    (by decide) (by decide)
  exact (hiff _).2 ⟨hlan hrun, rfl, rfl⟩

/-- The settings leave the device of the phone out, and every restore is refused from then on. -/
theorem fresh_backup_refused : ¬ ∀ (env : Env) (js : Json) (intentDigest : Mobile.Intent → Text)
    (start world : World) (calls : List (Request × Outside)) (state : State) (panel : Panel)
    (enabled : Bool) (now : ℤ) (checked : Checked),
    (∀ a b : Mobile.Intent, intentDigest a = intentDigest b → a.createRemote = b.createRemote) →
    start.disk.mobile = [] → (∀ call ∈ calls, Whole call.1) →
    Run (Rpc.Step env intentDigest) start calls world →
    Model.validateState env world.disk.state = .ok state →
    exportDocument env js state panel enabled now = .ok checked → state.revision < 0x7ffffffe →
    panel.access = state.settings.standaloneAccess → js.stateFits (next state panel).raw = true →
    candidate env js checked.document state world.disk.mobile =
      .ok { checked with state := { state with revision := state.revision + 1 } } := by
  intro h
  have hrefused : candidate plainEnv Revocation.shortJson (lanChecked []).document (lanState 2 [])
      [lanPhone] = .error .backupPairingConflict := by decide
  have hclaim := h plainEnv Revocation.shortJson Revocation.remoteDigest ⟨lanDisk 0 [] [], []⟩
    ⟨lanDisk 2 [] [lanPhone], lanDraws⟩ [(.provision phoneSession lanWish, phoneOutside '1' rfl),
      (.settings (saveDevices []), phoneOutside '2' rfl)] (lanState 2 []) {} false 0 (lanChecked [])
    Revocation.remoteDigest_separates rfl (by simp [Whole])
    (.stepL (.call (by unfold Fresh; decide) provision_lan)
      (.stepL (.call (by unfold Fresh; decide) save_none) (.refl _)))
    (by decide) (by decide) (by decide) rfl rfl
  exact absurd (hrefused.symm.trans hclaim) (by simp)

end Foxhole.FreshBackup
