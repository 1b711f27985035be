import Foxhole.BackupModel
import Foxhole.Listeners

/-! A revoked client stays away, as long as its tombstone does. -/
namespace Foxhole.Revocation
open Check Text Trace Rpc

/-- The router, and the documents it has exported. -/
structure Archive where
  world : World
  exported : List Backup.Document := []
deriving DecidableEq

inductive Act where
  | call (request : Request) (out : Outside)
  | exportBackup (panel : Backup.Panel) (enabled : Bool) (now : ℤ)
  | restoreBackup (document : Backup.Document)

/-- One call, one export, or one restore that commits. A restore compares state.json and mobile.json
at its commit with what its candidate was made of, so it is one step here. -/
inductive Step (env : Env) (js : Backup.Json) (intentDigest : Mobile.Intent → Text) :
    Archive → Act → Archive → Prop
  | call {archive : Archive} {request : Request} {out : Outside} {world : World} :
      Rpc.Step env intentDigest archive.world (request, out) world →
      Step env js intentDigest archive (.call request out) ⟨world, archive.exported⟩
  | exportBackup {archive : Archive} {panel : Backup.Panel} {enabled : Bool} {now : ℤ}
    {current : State}
      {checked : Backup.Checked} :
      Model.validateState env archive.world.disk.state = .ok current →
      Backup.exportDocument env js current panel enabled now = .ok checked →
      Step env js intentDigest archive (.exportBackup panel enabled now)
        ⟨archive.world, checked.document :: archive.exported⟩
  | restoreBackup {archive : Archive} {document : Backup.Document} {current : State}
      {value : Backup.Checked} :
      document ∈ archive.exported →
      Model.validateState env archive.world.disk.state = .ok current →
      Backup.candidate env js document current archive.world.disk.mobile = .ok value →
      Step env js intentDigest archive (.restoreBackup document)
        ⟨⟨archive.world.disk.write value.state, archive.world.issued⟩, archive.exported⟩

variable {env : Env} {js : Backup.Json} {intentDigest : Mobile.Intent → Text} {out : Outside}
  {disk disk' : Disk} {state : State} {archive archive' : Archive} {id : Text}
  {secret : Field Text} {act : Act}

/-! Where the clients and the phones of a call come from. -/

/-- A client of the state a call leaves was there before, is new under a drawn identifier, or was
prepared with a phone that the call repeats. -/
inductive Origin (intentDigest : Mobile.Intent → Text) (disk : Disk) (out : Outside)
    (client : Client) : Prop
  | kept (old : Client) : old ∈ disk.clients → old.key = client.key → old.secret = client.secret →
      Origin intentDigest disk out client
  | drawn : client.key = "client-".toList ++ out.draw.id → Origin intentDigest disk out client
  | prepared (phone : Mobile.Phone) (wish : Mobile.Intent) : phone ∈ disk.mobile →
      phone.remoteClientId = some client.key → phone.intent = intentDigest wish →
      ¬ (wish.createRemote = true ∧ phone.remoteRevoked = true) →
      Origin intentDigest disk out client

/-- A phone of the journal a call leaves was there before, perhaps without its tombstone, or is
new with the intent it was asked for. -/
inductive PhoneOrigin (intentDigest : Mobile.Intent → Text) (disk : Disk) (out : Outside)
    (phone : Mobile.Phone) : Prop
  | kept (old : Mobile.Phone) : old ∈ disk.mobile → old.remoteClientId = phone.remoteClientId →
      old.intent = phone.intent → (old.remoteRevoked = true → phone.remoteRevoked = true) →
      PhoneOrigin intentDigest disk out phone
  | drawn (wish : Mobile.Intent) : phone.intent = intentDigest wish →
      (∀ id ∈ phone.remoteClientId, wish.createRemote = true ∧ id = "client-".toList ++
        out.draw.id) →
      PhoneOrigin intentDigest disk out phone

theorem origin_of_eq (h : disk'.clients = disk.clients) :
    ∀ client ∈ disk'.clients, Origin intentDigest disk out client :=
  fun client hc => .kept client (h ▸ hc) rfl rfl

theorem mem_mapFirst {p : Client → Bool} {f : Client → Client} {clients : List Client}
    {client : Client} (h : client ∈ mapFirst p f clients) :
    client ∈ clients ∨ ∃ old ∈ clients, client = f old := by
  induction clients with
  | nil => cases h
  | cons c clients ih =>
    unfold mapFirst at h
    split at h
    · rcases List.mem_cons.1 h with rfl | h
      · exact Or.inr ⟨c, List.mem_cons_self, rfl⟩
      · exact Or.inl (List.mem_cons_of_mem _ h)
    · rcases List.mem_cons.1 h with rfl | h
      · exact Or.inl List.mem_cons_self
      · rcases ih h with h | ⟨old, ho, rfl⟩
        · exact Or.inl (List.mem_cons_of_mem _ h)
        · exact Or.inr ⟨old, List.mem_cons_of_mem _ ho, rfl⟩

/-- Rewriting one client under its identifier and secret. -/
theorem origin_of_mapFirst {p : Client → Bool} {f : Client → Client}
    (hf : ∀ c, (f c).key = c.key ∧ (f c).secret = c.secret)
    (h : disk'.clients = mapFirst p f disk.clients) :
    ∀ client ∈ disk'.clients, Origin intentDigest disk out client := by
  intro client hc
  rw [h] at hc
  rcases mem_mapFirst hc with hc | ⟨old, ho, rfl⟩
  · exact .kept client hc rfl rfl
  · exact .kept old ho (hf old).1.symm (hf old).2.symm

theorem saveServer_clients {args : ServerArgs} (h : saveServer env out disk args = .ok disk') :
    disk'.clients = disk.clients ∧ disk'.mobile = disk.mobile := by
  simp only [saveServer, bind_eq_ok] at h
  obtain ⟨parsed, -, subscription, -, -, -, ⟨id, given⟩, -, name, -, state, hst, h⟩ := h
  have hclients := (stateRecord_lists (stateAt_record hst)).2
  split at h
  · cases h
    exact ⟨hclients.symm, rfl⟩
  · simp only [bind_eq_ok, pure_eq_ok] at h
    obtain ⟨-, -, rfl⟩ := h
    exact ⟨hclients.symm, rfl⟩

theorem startServer_clients {args : IdArgs} (h : startServer env out disk args = .ok disk') :
    disk'.clients = disk.clients ∧ disk'.mobile = disk.mobile := by
  simp only [startServer, bind_eq_ok] at h
  obtain ⟨state, hst, h⟩ := h
  have hclients := (stateRecord_lists (stateAt_record hst)).2
  split at h
  · simp at h
  · simp only [bind_eq_ok] at h
    obtain ⟨-, -, h⟩ := h
    split at h <;> cases h
    · exact ⟨rfl, rfl⟩
    · exact ⟨hclients.symm, rfl⟩

theorem stopServer_clients {revision : Field ℤ} (h : stopServer env out disk revision = .ok disk') :
    disk'.clients = disk.clients ∧ disk'.mobile = disk.mobile := by
  simp only [stopServer, bind_eq_ok] at h
  obtain ⟨state, hst, h⟩ := h
  have hclients := (stateRecord_lists (stateForRevocation_record hst)).2
  split at h <;> cases h
  · exact ⟨rfl, rfl⟩
  · exact ⟨hclients.symm, rfl⟩

theorem saveClient_origin {args : ClientArgs} (h : saveClient env out disk args = .ok disk') :
    ∀ client ∈ disk'.clients, Origin intentDigest disk out client := by
  simp only [saveClient, bind_eq_ok, pure_eq_ok] at h
  obtain ⟨name, -, -, -, state, hst, serverId, -, client, hclient, rfl⟩ := h
  have hclients := (stateRecord_lists (stateAt_record hst)).2
  have hkey : client.key = "client-".toList ++ out.draw.id := by
    unfold savedClient at hclient
    split at hclient
    · cases hclient; rfl
    · simp only [listener, bind_eq_ok, pure_eq_ok] at hclient
      obtain ⟨-, -, rfl⟩ := hclient
      rfl
  intro c hc
  rcases List.mem_append.1 (show c ∈ state.clients ++ [client] from hc) with hc | hc
  · exact .kept c (hclients ▸ hc) rfl rfl
  · exact .drawn (List.mem_singleton.1 hc ▸ hkey)

theorem deleteServer_origin {args : IdArgs} (h : deleteServer env out disk args = .ok disk') :
    ∀ client ∈ disk'.clients, Origin intentDigest disk out client := by
  simp only [deleteServer, bind_eq_ok, pure_eq_ok] at h
  obtain ⟨state, hst, -, -, rfl⟩ := h
  have hclients := (stateRecord_lists (stateAt_record hst)).2
  intro c hc
  obtain ⟨old, ho, rfl⟩ := List.mem_map.1 hc
  refine .kept old (hclients ▸ ho) ?_ ?_ <;> split <;> rfl

/-- Deleting a client leaves the others, and marks the phones of a listener. -/
theorem deleteClient_ok {args : IdArgs} {revoked : Bool}
    (h : deleteClient env out disk args = .ok (disk', revoked)) :
    disk'.clients = disk.clients.eraseP (·.key = args.id) ∧
      disk'.mobile = if revoked then revokePhones disk.mobile args.id else disk.mobile := by
  simp only [deleteClient, bind_eq_ok] at h
  obtain ⟨state, hst, h⟩ := h
  have hclients := (stateRecord_lists (stateForRevocation_record hst)).2
  split at h
  · simp at h
  · split at h
    · simp only [bind_eq_ok, pure_eq_ok] at h
      obtain ⟨phones, hp, h⟩ := h
      obtain rfl := journal_eq hp
      cases h
      exact ⟨by rw [hclients]; rfl, rfl⟩
    · cases h
      exact ⟨by rw [hclients]; rfl, rfl⟩

theorem mem_revokePhones {phones : List Mobile.Phone} {phone : Mobile.Phone}
    (h : phone ∈ revokePhones phones id) : ∃ old ∈ phones,
      old.remoteClientId = phone.remoteClientId ∧ old.intent = phone.intent ∧
      (old.remoteRevoked = true → phone.remoteRevoked = true) ∧
      (phone.remoteClientId = some id → phone.remoteRevoked = true) := by
  obtain ⟨old, ho, rfl⟩ := List.mem_map.1 h
  refine ⟨old, ho, ?_⟩
  split <;> simp_all

/-- The new phone of a provision has the drawn client, if it asks for one. -/
theorem newPhone_origin {paired : Pairing.Session} {intent address : Text} {wish : Mobile.Intent}
    {b : Option Base} {random : Mobile.Random} {phone : Mobile.Phone}
    (h : Mobile.newPhone state paired intent address wish b random = .ok phone) :
    phone.intent = intent ∧ ∀ id ∈ phone.remoteClientId,
      wish.createRemote = true ∧ id = "client-".toList ++ random.client := by
  by_cases hc : wish.createRemote
  · cases b with
    | none => simp [Mobile.newPhone, hc, Mobile.newListener] at h
    | some base =>
      simp only [Mobile.newPhone, hc, if_true, Mobile.newListener, bind_eq_ok, pure_eq_ok] at h
      obtain ⟨-, -, -, -, rfl⟩ := h
      refine ⟨rfl, fun id hid => ⟨hc, ?_⟩⟩
      simpa [eq_comm] using hid
  · simp only [Mobile.newPhone, hc, Bool.false_eq_true, if_false, Except.ok.injEq] at h
    subst h
    exact ⟨rfl, by simp⟩

theorem provision_phones {paired : Pairing.Session} {args : ProvisionArgs} {p : Provision}
    (h : prepareProvision env intentDigest out disk paired args = .ok p) :
    ∀ phone ∈ p.phones, PhoneOrigin intentDigest disk out phone := by
  obtain ⟨state, stored, phone, prepared, -, -, hprune, -, hprep, -⟩ := prepareProvision_ok h
  have hkept : ∀ q ∈ stored, PhoneOrigin intentDigest disk out q :=
    fun q hq => .kept q (prune_mem hprune hq) rfl rfl id
  intro q hq
  rcases prepare_phone hprep with ⟨-, hphones⟩ | ⟨⟨wish, address, -, hphone⟩, hphones⟩
  · exact hkept q (hphones ▸ hq)
  · rw [hphones] at hq
    rcases List.mem_append.1 hq with hq | hq
    · exact hkept q hq
    · obtain rfl := List.mem_singleton.1 hq
      obtain ⟨hi, hid⟩ := newPhone_origin hphone
      exact .drawn wish hi hid

theorem provision_origin {paired : Pairing.Session} {args : ProvisionArgs} {p : Provision}
    (h : prepareProvision env intentDigest out disk paired args = .ok p) :
    ∀ client ∈ p.state.clients, Origin intentDigest disk out client := by
  obtain ⟨state, stored, phone, prepared, hst, -, hprune, hcreate, hprep, happ⟩ :=
    prepareProvision_ok h
  have hclients := (stateRecord_lists hst).2
  intro c hc
  rcases apply_clients happ with heq | ⟨-, id, hid, -, heq⟩
  · exact .kept c (hclients ▸ heq ▸ hc) rfl rfl
  · rw [heq] at hc
    rcases List.mem_append.1 hc with hc | hc
    · exact .kept c (hclients ▸ hc) rfl rfl
    · obtain rfl := List.mem_singleton.1 hc
      rcases prepare_phone hprep with ⟨hrep, -⟩ | ⟨⟨wish, address, -, hphone⟩, -⟩
      · obtain ⟨wish, hw, hi⟩ := hrep.intent
        exact .prepared phone wish (prune_mem hprune hrep.mem) hid hi (hw ▸ hrep.notRevoked)
      · exact .drawn ((newPhone_origin hphone).2 id hid).2

theorem perform_origin {request : Request}
    (h : perform env intentDigest out disk request = .ok disk') :
    ∀ client ∈ disk'.clients, Origin intentDigest disk out client := by
  cases request with
  | settings args =>
    simp only [perform, settingsCall, bind_eq_ok, pure_eq_ok] at h
    obtain ⟨state, hst, _, -, rfl⟩ := h
    exact origin_of_eq (stateRecord_lists (stateAt_record hst)).2.symm
  | saveServer args => exact origin_of_eq (saveServer_clients h).1
  | deleteServer args => exact deleteServer_origin h
  | startServer args => exact origin_of_eq (startServer_clients h).1
  | stopServer revision => exact origin_of_eq (stopServer_clients h).1
  | saveClient args => exact saveClient_origin h
  | updateClient args name =>
    simp only [perform, updateClient, bind_eq_ok, pure_eq_ok] at h
    obtain ⟨n, -, state, hst, -, -, rfl⟩ := h
    refine origin_of_mapFirst (p := (·.key = args.id)) (f := fun c => { c with name := .value n })
      (fun _ => ⟨rfl, rfl⟩) ?_
    rw [(stateRecord_lists (stateAt_record hst)).2]
    rfl
  | clientAccess args allowLan =>
    simp only [perform, clientAccess, bind_eq_ok, pure_eq_ok] at h
    obtain ⟨-, -, state, hst, -, -, rfl⟩ := h
    refine origin_of_mapFirst (p := fun c => c.key = args.id && c.inbound)
      (f := fun c => { c with allowLan := .value allowLan }) (fun _ => ⟨rfl, rfl⟩) ?_
    rw [(stateRecord_lists (stateForRevocation_record hst)).2]
    rfl
  | deleteClient args =>
    simp only [perform, map_eq_ok] at h
    obtain ⟨⟨d, revoked⟩, hd, rfl⟩ := h
    intro c hc
    rw [(deleteClient_ok hd).1] at hc
    exact .kept c (List.mem_of_mem_eraseP hc) rfl rfl
  | provision paired args =>
    simp only [perform, map_eq_ok] at h
    obtain ⟨p, hp, rfl⟩ := h
    by_cases hc : p.changed
    · have hfiles : (p.files disk).clients = p.state.clients := by
        simp [Provision.files, Disk.clients, hc, State.raw]
      rw [hfiles]
      exact provision_origin hp
    · exact origin_of_eq (by simp [Provision.files, Disk.clients, hc])
  | provisionCut paired args =>
    simp only [perform, map_eq_ok] at h
    obtain ⟨p, -, rfl⟩ := h
    exact origin_of_eq rfl
  | provisionRefused createRemote =>
    simp only [perform, bind_eq_ok, pure_eq_ok] at h
    obtain ⟨_, -, rfl⟩ := h
    exact origin_of_eq rfl
  | setupReset revision =>
    simp only [perform, setupReset, bind_eq_ok, pure_eq_ok] at h
    obtain ⟨_, -, -, -, rfl⟩ := h
    simp [Disk.clients, State.raw, Model.defaults]
  | pairCreate | pairRevoke =>
    simp only [perform, bind_eq_ok, pure_eq_ok] at h
    obtain ⟨_, -, rfl⟩ := h
    exact origin_of_eq rfl
  | setPin =>
    cases h
    exact origin_of_eq rfl

theorem phones_of_eq (h : disk'.mobile = disk.mobile) :
    ∀ phone ∈ disk'.mobile, PhoneOrigin intentDigest disk out phone :=
  fun phone hp => .kept phone (h ▸ hp) rfl rfl fun hr => hr

theorem perform_phones {request : Request}
    (h : perform env intentDigest out disk request = .ok disk') :
    ∀ phone ∈ disk'.mobile, PhoneOrigin intentDigest disk out phone := by
  cases request with
  | settings args =>
    simp only [perform, settingsCall, bind_eq_ok, pure_eq_ok] at h
    obtain ⟨_, -, _, -, rfl⟩ := h
    exact phones_of_eq rfl
  | saveServer args => exact phones_of_eq (saveServer_clients h).2
  | deleteServer args =>
    simp only [perform, deleteServer, bind_eq_ok, pure_eq_ok] at h
    obtain ⟨_, -, -, -, rfl⟩ := h
    exact phones_of_eq rfl
  | startServer args => exact phones_of_eq (startServer_clients h).2
  | stopServer revision => exact phones_of_eq (stopServer_clients h).2
  | saveClient args =>
    simp only [perform, saveClient, bind_eq_ok, pure_eq_ok] at h
    obtain ⟨_, -, _, -, _, -, _, -, _, -, rfl⟩ := h
    exact phones_of_eq rfl
  | updateClient args name =>
    simp only [perform, updateClient, bind_eq_ok, pure_eq_ok] at h
    obtain ⟨_, -, _, -, -, -, rfl⟩ := h
    exact phones_of_eq rfl
  | clientAccess args allowLan =>
    simp only [perform, clientAccess, bind_eq_ok, pure_eq_ok] at h
    obtain ⟨-, -, _, -, -, -, rfl⟩ := h
    exact phones_of_eq rfl
  | deleteClient args =>
    simp only [perform, map_eq_ok] at h
    obtain ⟨⟨d, revoked⟩, hd, rfl⟩ := h
    intro phone hp
    rw [(deleteClient_ok hd).2] at hp
    split at hp
    · obtain ⟨old, ho, hid, hi, hr, -⟩ := mem_revokePhones hp
      exact .kept old ho hid hi hr
    · exact .kept phone hp rfl rfl fun hr => hr
  | provision paired args | provisionCut paired args =>
    simp only [perform, map_eq_ok] at h
    obtain ⟨p, hp, rfl⟩ := h
    exact provision_phones hp
  | provisionRefused createRemote =>
    simp only [perform, bind_eq_ok, pure_eq_ok] at h
    obtain ⟨_, -, rfl⟩ := h
    exact phones_of_eq rfl
  | setupReset revision =>
    simp only [perform, setupReset, bind_eq_ok, pure_eq_ok] at h
    obtain ⟨_, -, -, -, rfl⟩ := h
    simp
  | pairCreate | pairRevoke =>
    simp only [perform, bind_eq_ok, pure_eq_ok] at h
    obtain ⟨_, -, rfl⟩ := h
    exact phones_of_eq rfl
  | setPin =>
    cases h
    exact phones_of_eq rfl

/-! The two invariants: of the journal from its beginning, and of a deleted client. -/

/-- Every remote phone was asked for as one, and its client was drawn. -/
def Journalled (intentDigest : Mobile.Intent → Text) (world : World) : Prop :=
  ∀ phone ∈ world.disk.mobile, ∀ id ∈ phone.remoteClientId, id ∈ world.issued ∧
    ∃ wish, wish.createRemote = true ∧ phone.intent = intentDigest wish

/-- The client is not in the state, and every phone that has it is marked as revoked. -/
structure Revoked (id : Text) (secret : Field Text) (world : World) : Prop where
  absent : ∀ client ∈ world.disk.clients, ¬ (client.key = id ∧ client.secret = secret)
  marked : ∀ phone ∈ world.disk.mobile, phone.remoteClientId = some id → phone.remoteRevoked = true
  issued : id ∈ world.issued

theorem journalled_step (h : Step env js intentDigest archive act archive')
    (hj : Journalled intentDigest archive.world) : Journalled intentDigest archive'.world := by
  cases h with
  | call h =>
    obtain ⟨-, hp⟩ := h
    rename_i request out disk
    intro phone hphone id hid
    rcases perform_phones hp phone hphone with ⟨old, ho, hoid, hi, -⟩ | ⟨wish, hi, hnew⟩
    · obtain ⟨hmem, wish, hw, hwi⟩ := hj old ho id (hoid ▸ hid)
      exact ⟨List.mem_append_right _ hmem, wish, hw, hi ▸ hwi⟩
    · obtain ⟨hw, rfl⟩ := hnew id hid
      exact ⟨List.mem_append_left _ (by simp [Draw.ids]), wish, hw, hi⟩
  | exportBackup => exact hj
  | restoreBackup => exact hj

/-- A restored document has no such client, or its tombstone is still in the journal. -/
def Tombstoned (id : Text) (secret : Field Text) (archive : Archive) : Act → Prop
  | .restoreBackup document =>
    (∀ client ∈ document.state.clients.value?.getD [],
      ¬ (client.key = id ∧ client.secret = secret)) ∨
    ∃ phone ∈ archive.world.disk.mobile, phone.remoteClientId = some id ∧ phone.remoteRevoked = true
  | _ => True

/-- A drawn identifier is not one drawn before. -/
theorem drawn_ne {world : World} {draw : Draw} (hf : Fresh world draw) (hi : id ∈ world.issued) :
    id ≠ "client-".toList ++ draw.id := by
  rintro rfl
  exact (hf _ (by simp [Draw.ids])).1 hi

theorem revoked_step
    (hsep : ∀ a b : Mobile.Intent, intentDigest a = intentDigest b →
      a.createRemote = b.createRemote)
    (h : Step env js intentDigest archive act archive') (hc : Tombstoned id secret archive act)
    (hj : Journalled intentDigest archive.world) (hr : Revoked id secret archive.world) :
    Revoked id secret archive'.world := by
  cases h with
  | call h =>
    obtain ⟨hf, hp⟩ := h
    rename_i request out disk
    refine ⟨fun client hclient hk => ?_, fun phone hphone hid => ?_,
      List.mem_append_right _ hr.issued⟩
    · rcases perform_origin hp client hclient with ⟨old, ho, hok, hos⟩ | hd |
        ⟨phone, wish, hphone, hpid, hpi, hnot⟩
      · exact hr.absent old ho ⟨hok.trans hk.1, hos.trans hk.2⟩
      · exact drawn_ne hf hr.issued (hk.1.symm.trans hd)
      · -- the phone was asked for as a remote one, so the call asks for it again
        obtain ⟨-, wish', hw', hi'⟩ := hj phone hphone _ hpid
        have hw : wish.createRemote = true := (hsep _ _ (hpi.symm.trans hi')).trans hw'
        exact hnot ⟨hw, hr.marked phone hphone (hk.1 ▸ hpid)⟩
    · rcases perform_phones hp phone hphone with ⟨old, ho, hoid, -, hrev⟩ | ⟨wish, -, hnew⟩
      · exact hrev (hr.marked old ho (hoid.trans hid))
      · exact absurd (hnew id hid).2 (drawn_ne hf hr.issued)
  | exportBackup => exact hr
  | restoreBackup hmem hv hcand =>
    rename_i document current value
    have hok := Model.validateState_ok hv
    have hclients := Backup.candidate_clients hok hcand
    refine ⟨fun client hclient hk => ?_, hr.marked, hr.issued⟩
    have hvalue : client ∈ value.state.clients := hclient
    rcases hc with hc | ⟨phone, hphone, hpid, hrev⟩
    · exact hc client (by simpa [hclients] using hvalue) hk
    · exact Backup.candidate_revoked hok hcand hphone hpid hrev client hvalue hk.1

theorem issued_step (h : Step env js intentDigest archive act archive')
    (hi : id ∈ archive.world.issued) : id ∈ archive'.world.issued := by
  cases h with
  | call h =>
    obtain ⟨-, -⟩ := h
    exact List.mem_append_right _ hi
  | exportBackup => exact hi
  | restoreBackup => exact hi

/-- A client that a provision adds has a drawn identifier. -/
theorem provisioned_issued {request : Request} {client : Client}
    (h : Step env js intentDigest archive (.call request out) archive')
    (hj : Journalled intentDigest archive.world) (hc : client ∈ archive'.world.disk.clients)
    (hnew : ∀ c ∈ archive.world.disk.clients, c.key ≠ client.key) :
    client.key ∈ archive'.world.issued := by
  cases h with
  | call h =>
    obtain ⟨-, hp⟩ := h
    rcases perform_origin hp client hc with ⟨old, ho, hk, -⟩ | hd | ⟨phone, -, hphone, hpid, -, -⟩
    · exact absurd hk (hnew old ho)
    · exact List.mem_append_left _ (by simp [Draw.ids, hd])
    · exact List.mem_append_right _ (hj phone hphone _ hpid).1

/-- Deleting a client leaves none under its identifier. -/
theorem deleteClient_absent {args : IdArgs} {revoked : Bool}
    (h : deleteClient env out disk args = .ok (disk', revoked)) :
    ∀ client ∈ disk'.clients, client.key ≠ args.id := by
  have hclients := (deleteClient_ok h).1
  simp only [deleteClient, bind_eq_ok] at h
  obtain ⟨state, hst, -⟩ := h
  have hst := stateForRevocation_record hst
  have herase := (stateRecord_ok hst).clients.eraseP_eq_filter (q := (·.key = args.id))
    fun b c hb hc => ⟨b.key, by simp [Client.keys], by simp_all [Client.keys]⟩
  rw [hclients, (stateRecord_lists hst).2, herase]
  intro client hc
  simpa using (List.mem_filter.1 hc).2

/-! A router with two paired phones. -/

/-- A digest that tells remote wishes from others. -/
def remoteDigest (wish : Mobile.Intent) : Text :=
  List.replicate 64 (if wish.createRemote then '1' else '0')

def otherSession : Pairing.Session :=
  ⟨"pair-".toList ++ List.replicate 32 '2', List.replicate 64 '2'⟩

def twoPairs : Pairing.Record where
  devices := [⟨phoneSession.id, phoneSession.verifier, "phone".toList, 0, {}⟩,
    ⟨otherSession.id, otherSession.verifier, "other".toList, 0, {}⟩]
  length_le := by decide
  valid := by decide
  nodup := by decide

def localWish : ProvisionArgs := { remoteWish with createRemote := false }

def remotePhone : Mobile.Phone := { preparedPhone with intent := List.replicate 64 '1' }

/-- The phone after its client is deleted. -/
def revokedPhone : Mobile.Phone := { remotePhone with remoteRevoked := true }

def remoteClient : Client := Mobile.client remotePhone "client-000000000001".toList

def localPhone : Mobile.Phone where
  pairId := otherSession.id
  verifier := otherSession.verifier
  intent := List.replicate 64 '0'
  name := "phone".toList
  address := "192.168.1.2".toList
  mac := "02:00:00:00:00:01".toList

def pairedDisk (revision : ℕ) (clients : List Client) (mobile : List Mobile.Phone)
    (pairs : Pairing.Record) : Disk :=
  ⟨lateState revision clients, mobile, pairs, some perClientBase⟩

/-- JSON texts that are always short enough. -/
def shortJson : Backup.Json := ⟨fun _ => true, fun _ => true⟩

def startArchive : Archive := ⟨⟨pairedDisk 0 [] [] twoPairs, []⟩, []⟩

def provisionedArchive : Archive :=
  ⟨⟨pairedDisk 1 [remoteClient] [remotePhone] twoPairs, (plainDraw '1' isHex_one).ids⟩, []⟩

def deletedDisk : Disk := pairedDisk 2 [] [revokedPhone] twoPairs

/-- The document exported while the phone has its client. -/
def remoteBackup : Backup.Checked :=
  ⟨0, { Model.defaults with revision := 1, clients := [remoteClient] }, {}, false⟩

theorem provision_remote : Step plainEnv shortJson remoteDigest startArchive
    (.call (.provision phoneSession remoteWish) (phoneOutside '1' rfl)) provisionedArchive :=
  .call (.call (by unfold Fresh; decide) (by decide))

theorem delete_remote : deleteClient plainEnv (phoneOutside '2' rfl) provisionedArchive.world.disk
    ⟨.value 1, remoteClient.key⟩ = .ok (deletedDisk, true) := by decide

def unpaired : Pairing.Record := Pairing.drop twoPairs phoneSession.id

theorem unpair : perform plainEnv remoteDigest (phoneOutside '3' rfl) deletedDisk
    (.pairRevoke phoneSession.id) =
    .ok (pairedDisk 2 [] [revokedPhone] unpaired) := by decide

theorem remoteDigest_separates (a b : Mobile.Intent) (h : remoteDigest a = remoteDigest b) :
    a.createRemote = b.createRemote := by
  revert h
  unfold remoteDigest
  cases a.createRemote <;> cases b.createRemote <;> decide

/-- The client of a phone, once deleted, does not come back with its secret: in every run from an
empty journal whose later restores find the tombstone of every document that has the client. -/
theorem revoked_run {a₀ a₁ a₂ a₃ a₄ : Archive} {acts₁ acts₂ acts₃ : List Act} {out out' : Outside}
    {paired : Pairing.Session} {args : ProvisionArgs} {client : Client} {revision : Field ℤ}
    (hsep : ∀ a b : Mobile.Intent, intentDigest a = intentDigest b →
      a.createRemote = b.createRemote)
    (hstart : a₀.world.disk.mobile = [])
    (h₁ : Run (Step env js intentDigest) a₀ acts₁ a₁)
    (hmade : Step env js intentDigest a₁ (.call (.provision paired args) out) a₂)
    (hclient : client ∈ a₂.world.disk.clients)
    (hnew : ∀ c ∈ a₁.world.disk.clients, c.key ≠ client.key)
    (h₂ : Run (Step env js intentDigest) a₂ acts₂ a₃)
    (hdel : deleteClient env out' a₃.world.disk ⟨revision, client.key⟩ = .ok (disk, true))
    (h₃ : Run (Guarded (Tombstoned client.key client.secret) (Step env js intentDigest))
      ⟨⟨disk, out'.draw.ids ++ a₃.world.issued⟩, a₃.exported⟩ acts₃ a₄) :
    ∀ c ∈ a₄.world.disk.clients, ¬ (c.key = client.key ∧ c.secret = client.secret) := by
  have hkeep := fun s a t (hj : Journalled intentDigest s.world)
      (h : Step env js intentDigest s a t) =>
    journalled_step h hj
  have hj₀ : Journalled intentDigest a₀.world := by
    intro phone hp
    rw [hstart] at hp
    cases hp
  have hj₁ := h₁.invariant hkeep hj₀
  have hj₂ := journalled_step hmade hj₁
  have hj₃ := h₂.invariant hkeep hj₂
  have hi₃ : client.key ∈ a₃.world.issued :=
    h₂.invariant (I := fun a => client.key ∈ a.world.issued) (fun _ _ _ hi h => issued_step h hi)
      (provisioned_issued hmade hj₁ hclient hnew)
  have hdisk := (deleteClient_ok hdel).2
  simp only [if_true] at hdisk
  have hj : Journalled intentDigest ⟨disk, out'.draw.ids ++ a₃.world.issued⟩ := by
    intro phone hp id hid
    obtain ⟨old, ho, hoid, hint, -, -⟩ := mem_revokePhones (hdisk ▸ hp)
    obtain ⟨hi, hw⟩ := hj₃ old ho id (hoid ▸ hid)
    exact ⟨List.mem_append_right _ hi, hint ▸ hw⟩
  have hr : Revoked client.key client.secret ⟨disk, out'.draw.ids ++ a₃.world.issued⟩ := {
    absent := fun c hc hk => deleteClient_absent hdel c hc hk.1
    marked := fun phone hp hid => by
      obtain ⟨old, -, -, -, -, hmark⟩ := mem_revokePhones (hdisk ▸ hp)
      exact hmark hid
    issued := List.mem_append_right _ hi₃ }
  have hend := h₃.invariant
    (I := fun a => Journalled intentDigest a.world ∧ Revoked client.key client.secret a.world)
    (fun _ _ _ hI h => ⟨journalled_step h.2 hI.1, revoked_step hsep h.2 h.1 hI.1 hI.2⟩) ⟨hj, hr⟩
  exact hend.2.absent

/-- After the delete only the pairing goes. -/
theorem revoked_run_unpaired : ¬ ∃ c ∈ (pairedDisk 2 [] [revokedPhone] unpaired).clients,
    c.key = remoteClient.key ∧ c.secret = remoteClient.secret := by
  rintro ⟨c, hc, hback⟩
  have hguard (archive : Archive) : Tombstoned remoteClient.key remoteClient.secret archive
      (.call (.pairRevoke phoneSession.id) (phoneOutside '3' rfl)) := trivial
  exact revoked_run remoteDigest_separates rfl (.refl _) provision_remote List.mem_cons_self
    (by simp [startArchive, pairedDisk, lateState, Disk.clients, State.raw]) (.refl _) delete_remote
    (.stepL ⟨hguard _, .call (.call (by unfold Fresh; decide) unpair)⟩ (.refl _)) c hc hback

/-- The tombstone goes with the pairing when another phone provisions, and an old document brings
the client back. -/
theorem revoked_broken : ¬ ∀ (env : Env) (js : Backup.Json) (intentDigest : Mobile.Intent → Text)
    (a₀ a₁ a₂ a₃ a₄ : Archive) (acts₁ acts₂ acts₃ : List Act) (out out' : Outside)
    (paired : Pairing.Session) (args : ProvisionArgs) (client : Client) (revision : Field ℤ)
    (disk : Disk),
    (∀ a b, intentDigest a = intentDigest b → a.createRemote = b.createRemote) →
    a₀.world.disk.mobile = [] → Run (Step env js intentDigest) a₀ acts₁ a₁ →
    Step env js intentDigest a₁ (.call (.provision paired args) out) a₂ →
    client ∈ a₂.world.disk.clients → (∀ c ∈ a₁.world.disk.clients, c.key ≠ client.key) →
    Run (Step env js intentDigest) a₂ acts₂ a₃ →
    deleteClient env out' a₃.world.disk ⟨revision, client.key⟩ = .ok (disk, true) →
    (∀ out revision, .call (.setupReset revision) out ∉ acts₃) →
    Run (Step env js intentDigest) ⟨⟨disk, out'.draw.ids ++ a₃.world.issued⟩, a₃.exported⟩
      acts₃ a₄ →
    ∀ c ∈ a₄.world.disk.clients, ¬ (c.key = client.key ∧ c.secret = client.secret) := by
  intro h
  have hcurrent : Model.validateState plainEnv provisionedArchive.world.disk.state =
      .ok remoteBackup.state := by decide
  have hexport : Step plainEnv shortJson remoteDigest provisionedArchive
      (.exportBackup {} false 0) ⟨provisionedArchive.world, [remoteBackup.document]⟩ :=
    .exportBackup hcurrent (by decide)
  have hother : perform plainEnv remoteDigest (phoneOutside '4' rfl)
      (pairedDisk 2 [] [revokedPhone] unpaired)
      (.provision otherSession localWish) = .ok (pairedDisk 2 [] [localPhone] unpaired) := by
    decide
  have hcandidate : Backup.candidate plainEnv shortJson remoteBackup.document
      { Model.defaults with revision := 2 } [localPhone] =
      .ok { remoteBackup with state := { remoteBackup.state with revision := 3 } } := by
    decide
  refine h plainEnv shortJson remoteDigest startArchive startArchive provisionedArchive
    ⟨provisionedArchive.world, [remoteBackup.document]⟩ _ [] [.exportBackup {} false 0]
    [.call (.pairRevoke phoneSession.id) (phoneOutside '3' rfl),
      .call (.provision otherSession localWish) (phoneOutside '4' rfl),
      .restoreBackup remoteBackup.document] _ _ _ _ remoteClient _ _ remoteDigest_separates rfl
    (.refl _) provision_remote List.mem_cons_self
    (by simp [startArchive, pairedDisk, lateState, Disk.clients, State.raw])
    (.stepL hexport (.refl _)) delete_remote (by simp)
    (.stepL (.call (.call (by unfold Fresh; decide) unpair))
      (.stepL (.call (.call (by unfold Fresh; decide) hother))
        (.stepL (.restoreBackup (by simp) (by decide) hcandidate) (.refl _))))
    remoteClient ?_ ⟨rfl, rfl⟩
  simp [Disk.write, Disk.clients, State.raw, remoteBackup]

end Foxhole.Revocation
