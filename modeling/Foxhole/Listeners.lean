import Foxhole.StateInvariant

/-! Listener ports: distinct and few, but for a prepared phone applied late. -/
namespace Foxhole.Rpc
open Check Text Trace

variable {env : Env} {intentDigest : Mobile.Intent → Text} {out : Outside} {disk disk' : Disk}
  {state state' : State} {base : Base} {world : World} {clients : List Client} {client : Client}

/-- The listeners have ports of their own and do not outnumber the base. -/
def Listeners (base : Base) (clients : List Client) : Prop :=
  (Inbound.usedPorts clients).Nodup ∧ (Inbound.usedPorts clients).length ≤ Inbound.limit base

/-- A listener may be added on this port. -/
def Room (base : Base) (clients : List Client) (port : Field ℤ) : Prop :=
  port ∉ Inbound.usedPorts clients ∧ (Inbound.usedPorts clients).length < Inbound.limit base

theorem usedPorts_append : Inbound.usedPorts (clients ++ [client]) =
    Inbound.usedPorts clients ++ if client.inbound then [client.port] else [] := by
  by_cases h : client.inbound <;> simp [Inbound.usedPorts, List.filter_append, h]

theorem listeners_append (h : Listeners base clients)
    (hr : client.inbound = true → Room base clients client.port) :
    Listeners base (clients ++ [client]) := by
  unfold Listeners at h ⊢
  rw [usedPorts_append]
  by_cases hi : client.inbound
  · obtain ⟨hp, hl⟩ := hr hi
    simp only [hi, if_true]
    refine ⟨h.1.append (by simp) (by simpa using hp), ?_⟩
    simpa using Nat.succ_le_of_lt hl
  · simpa [hi] using h

theorem listeners_sublist {clients' : List Client} (h : Listeners base clients)
    (hs : clients'.Sublist clients) : Listeners base clients' := by
  have hsub : (Inbound.usedPorts clients').Sublist (Inbound.usedPorts clients) :=
    (hs.filter _).map _
  exact ⟨h.1.sublist hsub, hsub.length_le.trans h.2⟩

/-- Every listener of an accepted state has a port. -/
theorem invalid_not_used (h : state.Ok env) : Field.invalid ∉ Inbound.usedPorts state.clients := by
  intro hmem
  obtain ⟨c, hc, hp⟩ := List.mem_map.1 hmem
  obtain ⟨hc, hi⟩ := List.mem_filter.1 hc
  have hshape := h.clients.forall_mem (fun _ _ hP => hP.1) c hc
  simp only [Model.clientShape, Bool.and_eq_true, Bool.or_eq_true] at hshape
  have hl : Model.listens c = true := by simpa [hi] using hshape.2
  unfold Model.listens at hl
  split at hl
  · simp_all
  · cases hl

theorem saveClient_listeners {args : ClientArgs} (hb : disk.base = some base)
    (hs : Inbound.shared base = false) (hl : Listeners base disk.clients)
    (h : saveClient env out disk args = .ok disk') : Listeners base disk'.clients := by
  simp only [saveClient, bind_eq_ok, require_eq_ok, pure_eq_ok] at h
  obtain ⟨name, -, -, -, state, hst, serverId, -, client, hclient, rfl⟩ := h
  obtain ⟨-, hclients⟩ := stateRecord_lists (stateAt_record hst)
  have hok := stateRecord_ok (stateAt_record hst)
  refine listeners_append (hclients ▸ hl) fun _ => ?_
  simp only [hb, savedClient, listener, bind_eq_ok, require_eq_ok, pure_eq_ok] at hclient
  obtain ⟨-, hlt, rfl⟩ := hclient
  exact ⟨Inbound.freePort_not_mem hs (invalid_not_used hok), hlt⟩

theorem deleteClient_listeners {args : IdArgs} {revoked : Bool} (hl : Listeners base disk.clients)
    (h : deleteClient env out disk args = .ok (disk', revoked)) : Listeners base disk'.clients := by
  simp only [deleteClient, bind_eq_ok] at h
  obtain ⟨state, hst, h⟩ := h
  obtain ⟨-, hclients⟩ := stateRecord_lists (stateForRevocation_record hst)
  have herase := listeners_sublist (hclients ▸ hl)
    (List.eraseP_sublist (p := fun c : Client => c.key = args.id) (l := state.clients))
  cases hfind : state.clients.find? (·.key = args.id) with
  | none => simp [hfind] at h
  | some client =>
    simp only [hfind] at h
    split at h
    · simp only [bind_eq_ok, pure_eq_ok] at h
      obtain ⟨_, -, h⟩ := h
      cases h
      exact herase
    · cases h
      exact herase

theorem deleteClient_base {args : IdArgs} {revoked : Bool}
    (h : deleteClient env out disk args = .ok (disk', revoked)) : disk'.base = disk.base := by
  simp only [deleteClient, bind_eq_ok] at h
  obtain ⟨state, -, h⟩ := h
  split at h
  · simp at h
  · split at h
    · simp only [bind_eq_ok, pure_eq_ok] at h
      obtain ⟨_, -, h⟩ := h
      cases h; rfl
    · cases h; rfl

/-! Provisioning: the journal, the phone it applies, and the client this may add. -/

theorem journal_eq {phones phones' : List Mobile.Phone}
    (h : Mobile.journal env phones = .ok phones') : phones' = phones := by
  simp only [Mobile.journal, bind_eq_ok, pure_eq_ok] at h
  obtain ⟨_, -, _, -, _, -, rfl⟩ := h
  rfl

/-- A phone of the journal that the request repeats. -/
structure Repeats (intentDigest : Mobile.Intent → Text) (stored : List Mobile.Phone)
    (paired : Pairing.Session) (createRemote : Bool) (phone : Mobile.Phone) : Prop where
  mem : phone ∈ stored
  pair : phone.pairId = paired.id ∧ phone.verifier = paired.verifier
  notRevoked : ¬ (createRemote = true ∧ phone.remoteRevoked = true)
  intent : ∃ wish, wish.createRemote = createRemote ∧ phone.intent = intentDigest wish

/-- The phone a provision applies: one of the journal that repeats the request, or a new one. -/
theorem prepare_phone {stored phones : List Mobile.Phone} {paired : Pairing.Session}
    {args : Mobile.Args} {b : Option Base} {random : Mobile.Random} {phone : Mobile.Phone}
    (h : Mobile.prepare env intentDigest state stored paired args b random = .ok (phones, phone)) :
    (Repeats intentDigest stored paired args.createRemote phone ∧ phones = stored) ∨
    ((∃ wish address, wish.createRemote = args.createRemote ∧
      Mobile.newPhone state paired (intentDigest wish) address wish b random = .ok phone) ∧
      phones = stored ++ [phone]) := by
  simp only [Mobile.prepare, bind_eq_ok] at h
  obtain ⟨l, hl, -, -, name, -, address, -, -, -, mac, -, register, -, h⟩ := h
  obtain rfl := journal_eq hl
  cases hfind : l.find? (·.pairId = paired.id) with
  | some p =>
    simp only [hfind, bind_eq_ok, require_eq_ok, pure_eq_ok] at h
    obtain ⟨-, ⟨hv, hi⟩, -, hrev, he⟩ := h
    cases he
    have hid : phone.pairId = paired.id := by simpa using List.find?_some hfind
    exact Or.inl ⟨⟨List.mem_of_find?_eq_some hfind, ⟨hid, hv⟩, hrev, _, rfl, hi⟩, rfl⟩
  | none =>
    simp only [hfind, bind_eq_ok, pure_eq_ok] at h
    obtain ⟨-, -, p, hp, l', hl', he⟩ := h
    cases he
    exact Or.inr ⟨⟨_, _, rfl, hp⟩, journal_eq hl'⟩

/-- Bringing the state up to a phone adds at most the phone's own client. -/
theorem apply_clients {phone : Mobile.Phone} {changed : Bool}
    (h : Mobile.apply env state phone = .ok (state', changed)) :
    state'.clients = state.clients ∨ (changed = true ∧ ∃ id, phone.remoteClientId = some id ∧
      (∀ c ∈ state.clients, c.key ≠ id) ∧
      state'.clients = state.clients ++ [Mobile.client phone id]) := by
  simp only [Mobile.apply, bind_eq_ok, pure_eq_ok] at h
  obtain ⟨s₀, h₀, ⟨s₁, d⟩, h₁, ⟨s₂, c⟩, h₂, s₃, h₃, he⟩ := h
  cases he
  have hlist : state.clients = s₀.clients := by simpa [State.raw] using (validateState_lists h₀).2
  have hdevice : s₁.clients = s₀.clients := by
    unfold Mobile.applyDevice at h₁
    split at h₁
    · cases h₁; rfl
    · simp only [bind_eq_ok] at h₁
      obtain ⟨-, -, h₁⟩ := h₁
      split at h₁ <;> cases h₁ <;> rfl
  have hwritten : state'.clients = s₂.clients := by
    have hraw := (validateState_lists h₃).2
    split at hraw <;> simpa [State.raw, eq_comm] using hraw
  rw [hwritten]
  unfold Mobile.applyClient at h₂
  split at h₂
  · cases h₂
    exact Or.inl (hdevice.trans hlist.symm)
  · rename_i id hid
    simp only [bind_eq_ok] at h₂
    obtain ⟨-, -, h₂⟩ := h₂
    split at h₂
    · cases h₂
      exact Or.inl (hdevice.trans hlist.symm)
    · rename_i hany
      cases h₂
      simp only [Bool.not_eq_true, List.any_eq_false, decide_eq_true_eq, hdevice, ← hlist] at hany
      refine Or.inr ⟨by simp, id, hid, hany, ?_⟩
      simp [hdevice, hlist]

/-- What a provision has read and computed when it starts to write. -/
theorem prepareProvision_ok {paired : Pairing.Session} {args : ProvisionArgs} {p : Provision}
    (h : prepareProvision env intentDigest out disk paired args = .ok p) :
    ∃ state stored phone prepared, stateRecord env out disk = .ok state ∧
      provisionBase out disk args.createRemote = .ok p.base ∧
      Mobile.prune env disk.mobile disk.pairs = .ok stored ∧
      prepared.createRemote = args.createRemote ∧
      Mobile.prepare env intentDigest state stored paired prepared p.base
        ⟨out.draw.device, out.draw.id, out.draw.secret⟩ = .ok (p.phones, phone) ∧
      Mobile.apply env state phone = .ok (p.state, p.changed) := by
  simp only [prepareProvision, bind_eq_ok] at h
  obtain ⟨address, -, h⟩ := h
  cases hmac : out.resolveMac address with
  | none => simp [hmac] at h
  | some mac =>
    simp only [hmac, bind_eq_ok, pure_eq_ok] at h
    obtain ⟨-, -, state, hst, base, hb, stored, hs, ⟨phones, phone⟩, hp, ⟨state', changed⟩, ha, -,
      -, rfl⟩ := h
    exact ⟨state, stored, phone, _, hst, hb, hs, rfl, hp, ha⟩

theorem prune_mem {stored pruned : List Mobile.Phone} {pairs : Pairing.Record} {p : Mobile.Phone}
    (h : Mobile.prune env stored pairs = .ok pruned) (hp : p ∈ pruned) : p ∈ stored := by
  simp only [Mobile.prune, bind_eq_ok, pure_eq_ok] at h
  obtain ⟨l, hl, rfl⟩ := h
  exact journal_eq hl ▸ List.mem_of_mem_filter hp

/-- A new phone's listener is one there is room for. -/
theorem newPhone_room {paired : Pairing.Session} {intent address : Text} {wish : Mobile.Intent}
    {random : Mobile.Random} {phone : Mobile.Phone} (hs : Inbound.shared base = false)
    (hok : state.Ok env)
    (h : Mobile.newPhone state paired intent address wish (some base) random = .ok phone)
    (hr : phone.remoteClientId ≠ none) : Room base state.clients phone.remotePort := by
  by_cases hc : wish.createRemote
  · simp only [Mobile.newPhone, hc, if_true, Mobile.newListener, bind_eq_ok, require_eq_ok,
      pure_eq_ok] at h
    obtain ⟨-, hlt, -, -, rfl⟩ := h
    exact ⟨Inbound.freePort_not_mem hs (invalid_not_used hok), hlt⟩
  · simp only [Mobile.newPhone, hc, Bool.false_eq_true, if_false, Except.ok.injEq] at h
    subst h
    exact absurd rfl hr

/-- A phone that a request would repeat and whose client the state lacks still finds the room it
was prepared for. -/
def Roomy (base : Base) (world : World) : Request × Outside → Prop
  | (.provision paired args, _) => ∀ phone ∈ world.disk.mobile, phone.pairId = paired.id →
      phone.verifier = paired.verifier → ¬ (args.createRemote = true ∧ phone.remoteRevoked = true) →
      ∀ id ∈ phone.remoteClientId, (∀ client ∈ world.disk.clients, client.key ≠ id) →
      Room base world.disk.clients phone.remotePort
  | _ => True

theorem provision_listeners {paired : Pairing.Session} {args : ProvisionArgs} {p : Provision}
    (hb : world.disk.base = some base) (hs : Inbound.shared base = false)
    (hroom : Roomy base world (.provision paired args, out))
    (hl : Listeners base world.disk.clients)
    (h : prepareProvision env intentDigest out world.disk paired args = .ok p) :
    p.base = some base ∧ Listeners base (p.files world.disk).clients := by
  obtain ⟨state, stored, phone, prepared, hst, hbase, hprune, hcreate, hprep, happ⟩ :=
    prepareProvision_ok h
  have hpb : p.base = some base := by
    simpa [provisionBase, hb, eq_comm] using hbase
  refine ⟨hpb, ?_⟩
  obtain ⟨-, hclients⟩ := stateRecord_lists hst
  by_cases hc : p.changed
  · have hfiles : (p.files world.disk).clients = p.state.clients := by
      simp [Provision.files, Disk.clients, hc, State.raw]
    rw [hfiles]
    rcases apply_clients happ with heq | ⟨-, id, hid, hnew, heq⟩
    · rw [heq, ← hclients]
      exact hl
    · rw [heq]
      refine listeners_append (hclients ▸ hl) fun _ => ?_
      rcases prepare_phone hprep with ⟨hrep, -⟩ | ⟨⟨wish, address, -, hphone⟩, -⟩
      · rw [← hclients]
        exact hroom phone (prune_mem hprune hrep.mem) hrep.pair.1 hrep.pair.2
          (hcreate ▸ hrep.notRevoked) id hid (hclients ▸ hnew)
      · rw [hpb] at hphone
        exact newPhone_room hs (stateRecord_ok hst) hphone (by simp [hid])
  · simpa [Provision.files, Disk.clients, hc] using hl

/-- The calls that deal with listeners and pairings. -/
def Allocates : Request → Prop
  | .saveClient _ | .deleteClient _ | .provision .. | .provisionCut .. | .provisionRefused _
  | .pairCreate .. | .pairRevoke _ => True
  | _ => False

/-- The inbound base stays, and the listeners fit it. -/
structure Fitting (base : Base) (disk : Disk) : Prop where
  base_eq : disk.base = some base
  listeners : Listeners base disk.clients

theorem fitting_step {w w' : World} {label : Request × Outside} (hs : Inbound.shared base = false)
    (hr : Allocates label.1) (hroom : Roomy base w label) (hf : Fitting base w.disk)
    (h : Step env intentDigest w label w') : Fitting base w'.disk := by
  obtain ⟨-, hp⟩ := h
  rename_i request out disk
  cases request with
  | saveClient args =>
    have hbase : disk.base = w.disk.base := by
      simp only [perform, saveClient, bind_eq_ok, pure_eq_ok] at hp
      obtain ⟨_, -, _, -, _, -, _, -, _, -, rfl⟩ := hp
      rfl
    exact ⟨hbase.trans hf.base_eq, saveClient_listeners hf.base_eq hs hf.listeners hp⟩
  | deleteClient args =>
    simp only [perform, map_eq_ok] at hp
    obtain ⟨⟨d, revoked⟩, hd, rfl⟩ := hp
    exact ⟨(deleteClient_base hd).trans hf.base_eq, deleteClient_listeners hf.listeners hd⟩
  | provision paired args =>
    simp only [perform, map_eq_ok] at hp
    obtain ⟨p, hp, rfl⟩ := hp
    obtain ⟨hb, hl⟩ := provision_listeners hf.base_eq hs hroom hf.listeners hp
    exact ⟨hb, hl⟩
  | provisionCut paired args =>
    simp only [perform, map_eq_ok] at hp
    obtain ⟨p, hp, rfl⟩ := hp
    obtain ⟨_, _, _, _, -, hbase, -⟩ := prepareProvision_ok hp
    have hpb : p.base = some base := by
      simpa [provisionBase, hf.base_eq, eq_comm] using hbase
    exact ⟨hpb, hf.listeners⟩
  | provisionRefused createRemote =>
    simp only [perform, provisionBase, hf.base_eq, bind_eq_ok, pure_eq_ok] at hp
    obtain ⟨_, ⟨⟩, rfl⟩ := hp
    exact ⟨rfl, hf.listeners⟩
  | pairCreate =>
    simp only [perform, bind_eq_ok, pure_eq_ok] at hp
    obtain ⟨_, -, rfl⟩ := hp
    exact ⟨hf.base_eq, hf.listeners⟩
  | pairRevoke id =>
    simp only [perform, bind_eq_ok, pure_eq_ok] at hp
    obtain ⟨_, -, rfl⟩ := hp
    exact ⟨hf.base_eq, hf.listeners⟩
  | _ => exact absurd hr (by simp [Allocates])

/-! A run in which a prepared phone comes late. -/

def perClientBase : Base := ⟨.value "per-client".toList, .missing⟩

/-- A paired phone and its session. -/
def phoneSession : Pairing.Session :=
  ⟨"pair-".toList ++ List.replicate 32 '1', List.replicate 64 '1'⟩

def phonePairs : Pairing.Record where
  devices := [⟨phoneSession.id, phoneSession.verifier, "phone".toList, 0, {}⟩]
  length_le := by decide
  valid := by decide
  nodup := by simp

def phoneOutside (c : Char) (hc : isHex c = true) : Outside :=
  { plainOutside c hc with resolveMac := fun _ => some "02:00:00:00:00:01".toList }

/-- The phone asks for remote access only. -/
def remoteWish : ProvisionArgs where
  name := "phone".toList
  address := "192.168.1.2".toList
  registerPhone := .value false
  createRemote := true

/-- The phone as the journal keeps it: its listener is on the first port. -/
def preparedPhone : Mobile.Phone where
  pairId := phoneSession.id
  verifier := phoneSession.verifier
  intent := List.replicate 64 '0'
  name := "phone".toList
  address := "192.168.1.2".toList
  mac := "02:00:00:00:00:01".toList
  remoteClientId := some "client-000000000001".toList
  remoteSecret := some (List.replicate 64 '1')
  remotePort := .value 14443

def lateState (revision : ℕ) (clients : List Client) : RawState :=
  State.raw { Model.defaults with revision, clients }

def lateDisk (revision : ℕ) (clients : List Client) (mobile : List Mobile.Phone) : Disk :=
  ⟨lateState revision clients, mobile, phonePairs, some perClientBase⟩

def zeroDigest : Mobile.Intent → Text := fun _ => List.replicate 64 '0'

theorem provision_cut : perform plainEnv zeroDigest (phoneOutside '1' rfl) (lateDisk 0 [] [])
    (.provisionCut phoneSession remoteWish) = .ok (lateDisk 0 [] [preparedPhone]) := by
  decide

theorem listeners_empty :
    Listeners base [] := ⟨by simp [Inbound.usedPorts], by simp [Inbound.usedPorts]⟩

/-- In per-client mode the listeners of state.json have ports of their own and stay within the
limit, in every run whose provisions find the room their phones were prepared for. -/
theorem listeners_run {w w' : World} {calls : List (Request × Outside)}
    (hs : Inbound.shared base = false) (hc : ∀ call ∈ calls, Allocates call.1)
    (h : Run (Guarded (Roomy base) (Step env intentDigest)) w calls w')
    (hb : w.disk.base = some base) (hl : Listeners base w.disk.clients) :
    Listeners base w'.disk.clients := by
  have hrun := h.invariant_labels (I := fun w => Fitting base w.disk)
      (C := fun call => Allocates call.1)
    (fun _ _ _ ha hf hstep => fitting_step hs ha hstep.1 hf hstep.2) hc ⟨hb, hl⟩
  exact hrun.listeners

/-- The retry of a provision that stopped between its writes, with nothing in between. -/
theorem listeners_run_retry :
    Listeners perClientBase (lateDisk 1 [Mobile.client preparedPhone "client-000000000001".toList]
      [preparedPhone]).clients := by
  have hretry : perform plainEnv zeroDigest (phoneOutside '2' rfl) (lateDisk 0 [] [preparedPhone])
      (.provision phoneSession remoteWish) =
      .ok (lateDisk 1 [Mobile.client preparedPhone "client-000000000001".toList]
        [preparedPhone]) := by
    decide
  have hroom : Roomy perClientBase ⟨lateDisk 0 [] [preparedPhone], (plainDraw '1' rfl).ids ++ []⟩
      (.provision phoneSession remoteWish, phoneOutside '2' rfl) := by
    intro phone _ _ _ _ id _ _
    exact ⟨by simp [Inbound.usedPorts, lateDisk, lateState, Disk.clients, State.raw], by decide⟩
  have hcut : Roomy perClientBase ⟨lateDisk 0 [] [], []⟩
      (.provisionCut phoneSession remoteWish, phoneOutside '1' rfl) := trivial
  exact listeners_run (by decide) (by simp [Allocates])
    (.stepL ⟨hcut, .call (by unfold Fresh; decide) provision_cut⟩
      (.stepL ⟨hroom, .call (by unfold Fresh; decide) hretry⟩ (.refl _))) rfl listeners_empty

/-- A phone is prepared, its port goes to a saved client, and the retry writes it a second time. -/
theorem listeners_broken : ¬ ∀ (env : Env) (intentDigest : Mobile.Intent → Text) (base : Base)
    (w w' : World) (calls : List (Request × Outside)), Inbound.shared base = false →
    (∀ call ∈ calls, Allocates call.1) → Run (Step env intentDigest) w calls w' →
    w.disk.base = some base → Listeners base w.disk.clients → Listeners base w'.disk.clients := by
  intro h
  have hsave : perform plainEnv zeroDigest (phoneOutside '2' rfl) (lateDisk 0 [] [preparedPhone])
      (.saveClient (saveSmartphone 0)) =
      .ok (lateDisk 1 [lastPortClient '2' 14443] [preparedPhone]) := by decide
  have hretry : perform plainEnv zeroDigest (phoneOutside '3' rfl)
      (lateDisk 1 [lastPortClient '2' 14443] [preparedPhone])
      (.provision phoneSession remoteWish) =
      .ok (lateDisk 2 [lastPortClient '2' 14443, Mobile.client preparedPhone
        "client-000000000001".toList] [preparedPhone]) := by decide
  have hbad : ¬ Listeners perClientBase (lateDisk 2 [lastPortClient '2' 14443,
      Mobile.client preparedPhone "client-000000000001".toList] [preparedPhone]).clients :=
    fun hl => absurd hl.1 (by decide)
  refine hbad (h plainEnv zeroDigest perClientBase ⟨lateDisk 0 [] [], []⟩ _ _ (by decide) ?_
    (.stepL (.call (by unfold Fresh; decide) provision_cut)
      (.stepL (.call (by unfold Fresh; decide) hsave)
        (.stepL (.call (by unfold Fresh; decide) hretry) (.refl _)))) rfl listeners_empty)
  simp [Allocates]

end Foxhole.Rpc
