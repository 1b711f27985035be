import Foxhole.Lib.Trace
import Foxhole.Rpc

/-! Every call leaves a state.json that the next call accepts, but for three slips. -/
namespace Foxhole.Rpc
open Check Text Address Trace

variable {env : Env} {intentDigest : Mobile.Intent → Text} {out : Outside} {disk disk' : Disk}
  {state : State} {raw : RawState} {seen : List Text}

/-- state.json passes `validate_state`. -/
def Accepted (env : Env) (raw : RawState) : Prop := Succeeds (Model.validateState env raw)

theorem accepted_raw (h : state.Ok env) : Accepted env state.raw :=
  ⟨state, Model.validateState_raw h⟩

/-! The parts of the state that a call may change without touching the invariant. -/

theorem policy_ok_settings {policy : Policy} (h : policy.Ok env.inet) (settings : Settings) :
    Policy.Ok env.inet { policy with settings := settings } :=
  ⟨h.countries, h.countries_le, h.devices, h.devices_le, h.sites, h.sites_le⟩

theorem ok_bump (h : state.Ok env) : (bump state).Ok env :=
  ⟨h.policy, h.servers, h.active, h.clients⟩

theorem stateRecord_ok (h : stateRecord env out disk = .ok state) : state.Ok env := by
  simp only [stateRecord, bind_eq_ok, pure_eq_ok] at h
  obtain ⟨s, hs, rfl⟩ := h
  have hok := Model.validateState_ok hs
  exact ⟨policy_ok_settings hok.policy _, hok.servers, hok.active, hok.clients⟩

theorem validateState_lists (h : Model.validateState env raw = .ok state) :
    raw.servers = .value state.servers ∧ raw.clients = .value state.clients := by
  simp only [Model.validateState, bind_eq_ok, require_eq_ok, pure_eq_ok] at h
  obtain ⟨-, -, rev, -, -, -, -, -, policy, -, servers, hrs, clients, hrc, vs, hvs,
    active, -, cs, hcs,
    rfl⟩ := h
  have hservers : servers = vs :=
    scan_eq_self (fun _ _ _ hs => (Model.checkServer_eq_ok.1 hs).2) hvs
  have hclients : clients = cs :=
    scan_eq_self (fun _ _ _ hc => (Model.checkClient_eq_ok.1 hc).2) hcs
  constructor
  · cases hf : raw.servers <;> simp_all [Model.required]
  · cases hf : raw.clients <;> simp_all [Model.required]

/-- The records a call works on are those of the file. -/
theorem stateRecord_lists (h : stateRecord env out disk = .ok state) :
    disk.servers = state.servers ∧ disk.clients = state.clients := by
  simp only [stateRecord, bind_eq_ok, pure_eq_ok] at h
  obtain ⟨s, hs, rfl⟩ := h
  have hlists := validateState_lists hs
  exact ⟨by simp [Disk.servers, hlists.1], by simp [Disk.clients, hlists.2]⟩

theorem stateAt_record {revision : Field ℤ} (h : stateAt env out disk revision = .ok state) :
    stateRecord env out disk = .ok state := by
  simp only [stateAt, bind_eq_ok, pure_eq_ok] at h
  obtain ⟨_, -, s, hs, -, -, rfl⟩ := h
  exact hs

theorem stateForRevocation_record {revision : Field ℤ} {allowed : Bool}
    (h : stateForRevocation env out disk revision allowed = .ok state) :
    stateRecord env out disk = .ok state := by
  simp only [stateForRevocation, bind_eq_ok, pure_eq_ok] at h
  obtain ⟨_, -, s, hs, -, -, rfl⟩ := h
  exact hs

/-! Identifiers of different kinds never coincide. -/

theorem tagged_append (tag : Text) {n : ℕ} (t : Hex n) :
    (tagged tag n).accepts (tag ++ '-' :: t.1) = true := by
  have ht := Regex.accepts_rep_cls.1 t.2
  exact Regex.accepts_lit_rep.2 ⟨t.1, by simp, ht⟩

theorem server_ne_client {s c : Text} (hs : (tagged "server".toList 12).accepts s = true)
    (hc : (tagged "client".toList 12).accepts c = true) : s ≠ c := by
  obtain ⟨u, rfl, -⟩ := Regex.accepts_lit_rep.1 hs
  obtain ⟨v, rfl, -⟩ := Regex.accepts_lit_rep.1 hc
  intro h
  exact absurd (List.cons.inj h).1 (by decide)

theorem clientShape_key {client : Client} (h : Model.clientShape client = true) :
    (tagged "client".toList 12).accepts client.key = true := by
  simp only [Model.clientShape, Bool.and_eq_true] at h
  exact h.1.1.1

/-! Servers that `server.save` writes. -/

theorem subscription_ofOption {f : Field Subscription} {subscription : Option Subscription}
    (h : Core.subscription f = .ok subscription) :
    Core.subscription (.ofOption subscription) = .ok subscription := by
  rcases f with _ | _ | value
  · cases h; rfl
  · cases h
  · have hsome : subscription = some value := by
      simp only [Core.subscription, bind_eq_ok, require_eq_ok, pure_eq_ok] at h
      obtain ⟨-, -, -, -, -, -, -, -, -, -, -, -, -, -, -, -, rfl⟩ := h
      rfl
    subst hsome
    exact h

theorem parseConfig_trim {f : Field Text} {parsed : Parsed}
    (h : Model.parseConfig env f = .ok parsed) :
    Model.parseConfig env (.value (trim (f.value?.getD []))) = .ok parsed ∧
      trim (f.value?.getD []) ≠ [] := by
  rcases f with _ | _ | t
  · simp [Model.parseConfig] at h
  · simp [Model.parseConfig] at h
  · simp only [Model.parseConfig, bind_eq_ok, require_eq_ok] at h
    obtain ⟨-, ⟨hl, hne⟩, hp⟩ := h
    refine ⟨?_, hne⟩
    simp only [Model.parseConfig, bind_eq_ok, require_eq_ok, Field.value?_value, Option.getD_some,
      trim_trim]
    exact ⟨(), ⟨trim_length_le.trans hl, hne⟩, hp⟩

/-- What `validate_state` asks of an admitted configuration beside its portable profile. -/
structure AdmittedOk (env : Env) (parsed : Admitted) : Prop where
  ne_nil : parsed.raw ≠ []
  legacy : parsed.protocol = none → Succeeds (Model.parseConfig env (.value parsed.raw))
  core : ∀ protocol ∈ parsed.protocol,
    Core.describe env (.value parsed.raw) = .ok { protocol, endpoint := parsed.endpoint }
  portable : parsed.protocol ≠ none →
    Core.portable env parsed.portableProfile parsed.raw = .ok ()

theorem admitLegacy_ok {config : Field Text} {parsed : Admitted}
    (h : admitLegacy env config = .ok parsed) : AdmittedOk env parsed := by
  simp only [admitLegacy, bind_eq_ok, pure_eq_ok] at h
  obtain ⟨p, hp, rfl⟩ := h
  exact {
    ne_nil := (parseConfig_trim hp).2
    legacy := fun _ => ⟨_, (parseConfig_trim hp).1⟩
    core := by simp
    portable := fun hne => absurd rfl hne }

theorem admitCore_ok {config : Text} {parsed : Admitted}
    (h : admitCore env out config = .ok parsed) : AdmittedOk env parsed := by
  simp only [admitCore, bind_eq_ok, require_eq_ok] at h
  obtain ⟨-, hlen, h⟩ := h
  cases hi : out.coreImport config with
  | none => simp [hi] at h
  | some imported =>
    simp only [hi, bind_eq_ok, pure_eq_ok] at h
    obtain ⟨d, hd, rfl⟩ := h
    have hraw : 2 ≤ imported.length := by
      simp only [Core.describe, bind_eq_ok, require_eq_ok] at hd
      exact hd.choose_spec.1.1
    exact {
      ne_nil := by rintro rfl; simp at hraw
      legacy := by rintro ⟨⟩
      core := by rintro _ ⟨⟩; exact hd
      portable := by simp [Core.portable, hlen] }

theorem admitServer_ok {config engine : Field Text} {parsed : Admitted}
    (h : admitServer env out config engine = .ok parsed) : AdmittedOk env parsed := by
  unfold admitServer at h
  split at h
  · exact admitLegacy_ok h
  · exact admitLegacy_ok h
  · split at h
    · exact admitLegacy_ok h
    · split at h
      · split at h
        · exact admitCore_ok h
        · simp at h
      · simp at h

/-- A record built from an admitted configuration passes, with any portable profile that goes with
its configuration. -/
theorem newServer_body (portable : Field Portable) {id name : Text} {parsed : Admitted}
    {f : Field Subscription} {subscription : Option Subscription}
    (hid : (tagged "server".toList 12).accepts id = true) (hp : AdmittedOk env parsed)
    (hs : Core.subscription f = .ok subscription)
    (hport : parsed.protocol ≠ none → Core.portable env portable parsed.raw = .ok ()) :
    Model.checkServerBody env { newServer id name parsed subscription with
      portableProfile := portable } = .ok () := by
  refine Model.checkServerBody_eq_ok.2 ⟨hid, ⟨nofun, nofun⟩,
    ⟨nofun, by simpa [newServer] using hp.ne_nil⟩, Model.checkEngine_eq_ok.2 ?_,
    ⟨_, subscription_ofOption hs⟩⟩
  cases hprot : parsed.protocol with
  | none => exact Or.inr ⟨Or.inl (by simp [newServer, hprot]), hp.legacy hprot⟩
  | some protocol =>
    have hcore := hp.core protocol hprot
    exact Or.inl ⟨by simp [newServer, hprot],
      by simp [Core.server, newServer, hcore, hprot, Model.engineCore], hport (by simp [hprot])⟩

/-! The lists after a call. -/

theorem refersTo_mono {seen' : List Text} {f : Field Text} (hs : seen ⊆ seen')
    (h : Model.refersTo seen f = true) : Model.refersTo seen' f = true := by
  cases f with
  | missing => rfl
  | invalid => cases h
  | value id => simpa [Model.refersTo] using hs (by simpa [Model.refersTo] using h)

theorem refersTo_lost {seen' lost : List Text} {f : Field Text}
    (hs : ∀ k ∈ seen, k ∉ lost → k ∈ seen') (hf : ∀ id ∈ lost, f ≠ .value id)
    (h : Model.refersTo seen f = true) : Model.refersTo seen' f = true := by
  cases f with
  | missing => rfl
  | invalid => cases h
  | value id =>
    have hmem : id ∈ seen := by simpa [Model.refersTo] using h
    simpa [Model.refersTo] using hs id hmem fun hl => hf id hl rfl

theorem mem_clientSeen {id : Text} :
    id ∈ seenAfter Client.keys (serverIds state.servers) state.clients ↔
      (∃ server ∈ state.servers, server.key = id) ∨ ∃ client ∈ state.clients, client.key = id := by
  simp [Client.keys, eq_comm]

/-- A client may be added under an identifier of its own. -/
theorem ok_addClient {client : Client} (h : state.Ok env)
    (hshape : Model.clientShape client = true)
    (hnew : ∀ other ∈ state.clients, other.key ≠ client.key)
    (href : Model.refersTo (serverIds state.servers) client.serverId = true) :
    State.Ok env { state with clients := state.clients ++ [client] } where
  policy := h.policy
  servers := h.servers
  active := h.active
  clients := by
    refine scanned_append.2 ⟨h.clients, scanned_singleton.2 ⟨⟨hshape, ?_⟩, ?_⟩⟩
    · exact refersTo_mono (fun k hk => mem_seenAfter.2 (Or.inl hk)) href
    · simp only [Client.keys, List.singleton_disjoint, mem_clientSeen]
      rintro (⟨server, hs, hk⟩ | ⟨other, ho, hk⟩)
      · have hbody := h.servers.forall_mem (fun _ _ hb => hb) server hs
        exact server_ne_client (Model.checkServerBody_eq_ok.1 hbody).1 (clientShape_key hshape) hk
      · exact hnew other ho hk

theorem mapFirst_forall₂ {p : Client → Bool} {f : Client → Client} {R : Client → Client → Prop}
    {clients : List Client} (hR : ∀ c, R c c) (hf : ∀ c ∈ clients, p c = true → R c (f c)) :
    List.Forall₂ R clients (mapFirst p f clients) := by
  induction clients with
  | nil => exact .nil
  | cons c clients ih =>
    by_cases hp : p c
    · simp only [mapFirst, hp, if_true]
      exact .cons (hf c List.mem_cons_self hp) (List.forall₂_same.2 fun c _ => hR c)
    · simp only [mapFirst, hp, Bool.false_eq_true, if_false]
      exact .cons (hR c) (ih fun d hd => hf d (List.mem_cons_of_mem _ hd))

/-- Rewriting one client without touching its identifier or its server. -/
theorem ok_mapFirst {p : Client → Bool} {f : Client → Client} (h : state.Ok env)
    (hf : ∀ c ∈ state.clients, p c = true → (f c).key = c.key ∧ (f c).serverId = c.serverId ∧
      (Model.clientShape c = true → Model.clientShape (f c) = true)) :
    State.Ok env { state with clients := mapFirst p f state.clients } where
  policy := h.policy
  servers := h.servers
  active := h.active
  clients := by
    refine h.clients.forall₂ (mapFirst_forall₂ (fun c => ⟨rfl, fun _ hc => hc⟩) fun c hc hp => ?_)
    obtain ⟨hk, hr, hs⟩ := hf c hc hp
    exact ⟨by simp [Client.keys, hk], fun seen hP => ⟨hs hP.1, hr ▸ hP.2⟩⟩

/-- Servers may be rewritten under their identifiers. -/
theorem ok_replaceServer {f : Server → Server} (h : state.Ok env) (hk : ∀ v, (f v).key = v.key)
    (hf : ∀ v ∈ state.servers, Model.checkServerBody env v = .ok () →
      Model.checkServerBody env (f v) = .ok ()) :
    State.Ok env { state with servers := state.servers.map f } := by
  have hids : serverIds (state.servers.map f) = serverIds state.servers := by
    simp only [serverIds, seenAfter, List.foldl_map, Server.keys, hk]
  exact {
    policy := h.policy
    servers := h.servers.map (fun v => by simp [Server.keys, hk]) fun v hv _ => hf v hv
    active := by rw [hids]; exact h.active
    clients := by rw [hids]; exact h.clients }

theorem serverIds_append {servers : List Server} {server : Server} :
    serverIds (servers ++ [server]) = server.key :: serverIds servers := by
  simp [serverIds, seenAfter, List.foldl_append, Server.keys]

theorem ok_addServer {server : Server} (h : state.Ok env)
    (hbody : Model.checkServerBody env server = .ok ())
    (hnew : ∀ other ∈ state.servers, other.key ≠ server.key) :
    State.Ok env { state with servers := state.servers ++ [server] } where
  policy := h.policy
  servers := scanned_append.2 ⟨h.servers, scanned_singleton.2 ⟨hbody, by
    simpa [Server.keys, eq_comm] using hnew⟩⟩
  active := fun id hid => by
    rw [serverIds_append]
    exact List.mem_cons_of_mem _ (h.active id hid)
  clients := by
    rw [serverIds_append]
    refine h.clients.grow (fun s s' c hs hc => ⟨hc.1, refersTo_mono hs hc.2⟩)
      (List.subset_cons_self _ _) fun c hc k hk hk' => ?_
    rcases List.mem_cons.1 hk' with hk' | hk'
    · have hshape := h.clients.forall_mem (fun _ _ hc => hc.1) c hc
      refine server_ne_client (Model.checkServerBody_eq_ok.1 hbody).1 (clientShape_key hshape) ?_
      rw [← hk', List.mem_singleton.1 hk]
    · exact h.clients.disjoint c hc hk hk'

/-- Deleting a server clears every reference to it. -/
theorem ok_deleteServer {id : Text} (h : state.Ok env) :
    State.Ok env { state with
      servers := state.servers.eraseP (·.key = id)
      activeServerId := if state.activeServerId = some id then none else state.activeServerId
      clients := state.clients.map fun client =>
        if client.serverId = .value id then { client with serverId := .missing } else client } := by
  have herase : state.servers.eraseP (·.key = id) = state.servers.filter fun v =>
      !(v.key = id : Bool) :=
    h.servers.eraseP_eq_filter fun b c hb hc => ⟨b.key, by simp [Server.keys],
      by simp_all [Server.keys]⟩
  have hids : ∀ k ∈ serverIds state.servers, k ∉ [id] →
      k ∈ serverIds (state.servers.eraseP (·.key = id)) := by
    intro k hk hne
    obtain ⟨v, hv, rfl⟩ := mem_serverIds.1 hk
    rw [herase]
    exact mem_serverIds.2 ⟨v, List.mem_filter.2 ⟨hv, by simpa using hne⟩, rfl⟩
  have hsub : serverIds (state.servers.eraseP (·.key = id)) ⊆ serverIds state.servers := by
    intro k hk
    obtain ⟨v, hv, rfl⟩ := mem_serverIds.1 hk
    exact mem_serverIds.2 ⟨v, List.mem_of_mem_eraseP hv, rfl⟩
  refine { policy := h.policy, servers := ?_, active := ?_, clients := ?_ }
  · show Scanned Server.keys _ [] (state.servers.eraseP (·.key = id))
    rw [herase]
    exact h.servers.filter [id] (fun _ _ _ _ _ hb => hb)
      (fun b _ hb => by simp_all [Server.keys]) (fun _ hk => hk) (fun _ hk _ => hk)
  · intro k hk
    by_cases ha : state.activeServerId = some id
    · simp [ha] at hk
    · simp only [ha, if_false] at hk
      refine hids k (h.active k hk) ?_
      rw [List.mem_singleton]
      rintro rfl
      exact ha hk
  · have hmap := h.clients.map (g := fun client =>
        if client.serverId = .value id then { client with serverId := .missing } else client)
      (fun c => by split <;> rfl) (fun c _ seen hc => by
        split
        · exact ⟨hc.1, rfl⟩
        · exact hc)
    have hfilter := hmap.filter (q := fun _ => true) [id]
      (fun s s' c hc hs hP => ⟨hP.1, refersTo_lost hs (by
        obtain ⟨d, -, rfl⟩ := List.mem_map.1 hc
        simp only [List.mem_singleton, forall_eq]
        split <;> simp_all) hP.2⟩) (by simp) hsub hids
    simpa using hfilter

/-- Deleting a client nobody refers to. -/
theorem ok_deleteClient (id : Text) (h : state.Ok env)
    (href : ∀ client ∈ state.clients, client.serverId ≠ .value id) :
    State.Ok env { state with clients := state.clients.eraseP (·.key = id) } where
  policy := h.policy
  servers := h.servers
  active := h.active
  clients := by
    have herase : state.clients.eraseP (·.key = id) =
        state.clients.filter fun c => !(c.key = id : Bool) :=
      h.clients.eraseP_eq_filter fun b c hb hc => ⟨b.key, by simp [Client.keys],
        by simp_all [Client.keys]⟩
    rw [herase]
    exact h.clients.filter [id]
      (fun s s' c hc hs hP => ⟨hP.1, refersTo_lost hs (by simpa using href c hc) hP.2⟩)
      (fun b _ hb => by simp_all [Client.keys]) (fun _ hk => hk) (fun _ hk _ => hk)

/-! The three slips, as conditions on the files and the arguments before the call. -/

/-- A port between the first one and 65535 is left for a new listener. -/
def PortFree (base : Base) (used : List (Field ℤ)) : Prop :=
  Inbound.shared base = true ∨ ∃ first, Inbound.firstPort base = .value first ∧ 1 ≤ first ∧
    ∃ port, first ≤ port ∧ port ≤ 65535 ∧ .value port ∉ used

/-- Allocating a listener needs a free port; keeping a portable profile needs one that fits what
the importer returns; a deleted client must not be the server of another. -/
def Sound (env : Env) (world : World) : Request × Outside → Prop
  | (.saveClient _, _) => ∀ base ∈ world.disk.base,
      (Inbound.usedPorts world.disk.clients).length < Inbound.limit base →
      PortFree base (Inbound.usedPorts world.disk.clients)
  | (.saveServer args, out) => args.engine = Model.engineCore →
      ∀ server ∈ world.disk.servers, args.id = .value server.key →
      server.portableProfile ≠ .missing →
      ∀ config, args.config = .value config → server.config.value?.map trim = some (trim config) →
      ∀ imported ∈ out.coreImport config,
        Core.portable env server.portableProfile imported = .ok ()
  | (.deleteClient args, _) => (∃ client ∈ world.disk.clients, client.key = args.id) →
      ∀ client ∈ world.disk.clients, client.serverId ≠ .value args.id
  | _ => True

theorem freePort_bounds {base : Base} {used : List (Field ℤ)} (h : PortFree base used) :
    ∃ port, Inbound.freePort base used = .value port ∧ 1 ≤ port ∧ port ≤ 65535 := by
  unfold Inbound.freePort
  rcases h with hs | ⟨first, hf, h1, port, hle, hmax, hfree⟩
  · exact ⟨443, by simp [hs], by decide, by decide⟩
  · by_cases hs : Inbound.shared base
    · exact ⟨443, by simp [hs], by decide, by decide⟩
    · refine ⟨Inbound.skipUsed used used.length first,
        by simp only [hs, Bool.false_eq_true, if_false, hf], h1.trans Inbound.le_skipUsed,
          (Inbound.skipUsed_le hle hfree).trans hmax⟩

/-! One lemma for each call. -/

section Calls
variable {world : World}

theorem fresh_id (h : Fresh world out.draw) (id : Text) (hid : id ∈ out.draw.ids) :
    (∀ server ∈ world.disk.servers, server.key ≠ id) ∧
      ∀ client ∈ world.disk.clients, client.key ≠ id := by
  have hnot := (h id hid).2
  simp only [Disk.ids, List.mem_append, List.mem_map, not_or] at hnot
  exact ⟨fun v hv he => hnot.1.1.1 ⟨v, hv, he⟩, fun c hc he => hnot.1.1.2 ⟨c, hc, he⟩⟩

theorem settings_accepted {args : SettingsArgs}
    (h : settingsCall env out disk args = .ok disk') : Accepted env disk'.state := by
  simp only [settingsCall, bind_eq_ok, pure_eq_ok] at h
  obtain ⟨state, hst, checked, hc, rfl⟩ := h
  have hs := stateRecord_ok (stateAt_record hst)
  have hp := Policy.validateSettings_ok hc
  exact accepted_raw (ok_bump ⟨policy_ok_settings hp _, hs.servers, hs.active, hs.clients⟩)

theorem serverId_ok {f : Field Text} {id : Text} {given : Bool}
    (h : serverId out f = .ok (id, given)) :
    (tagged "server".toList 12).accepts id = true ∧
      (given = true → f = .value id) ∧ (given = false → id = "server-".toList ++ out.draw.id) := by
  have hnew : (tagged "server".toList 12).accepts ("server-".toList ++ out.draw.id) = true :=
    tagged_append "server".toList out.draw.id
  unfold serverId at h
  split at h
  · cases h; exact ⟨hnew, by simp, fun _ => rfl⟩
  · cases h; exact ⟨hnew, by simp, fun _ => rfl⟩
  · cases h
  · split at h
    · cases h; exact ⟨‹_›, fun _ => rfl, by simp⟩
    · cases h

/-- An admitted core configuration came out of the importer. -/
theorem admitServer_core {config engine : Field Text} {parsed : Admitted}
    (h : admitServer env out config engine = .ok parsed) (hp : parsed.protocol ≠ none) :
    engine = Model.engineCore ∧ ∃ t, config = .value t ∧ out.coreImport t = some parsed.raw := by
  have hlegacy : admitLegacy env config ≠ .ok parsed := by
    intro hl
    simp only [admitLegacy, bind_eq_ok, pure_eq_ok] at hl
    obtain ⟨_, -, rfl⟩ := hl
    exact hp rfl
  unfold admitServer at h
  split at h
  · exact absurd h hlegacy
  · exact absurd h hlegacy
  · split at h
    · exact absurd h hlegacy
    · split at h
      · rename_i he
        split at h
        · rename_i t
          refine ⟨he, t, rfl, ?_⟩
          simp only [admitCore, bind_eq_ok] at h
          obtain ⟨-, -, h⟩ := h
          cases hi : out.coreImport t with
          | none => simp [hi] at h
          | some imported =>
            simp only [hi, bind_eq_ok, pure_eq_ok] at h
            obtain ⟨_, -, rfl⟩ := h
            rfl
        · simp at h
      · simp at h

theorem saveServer_accepted {args : ServerArgs} (hf : Fresh world out.draw)
    (hsound : Sound env world (.saveServer args, out))
    (h : saveServer env out world.disk args = .ok disk') : Accepted env disk'.state := by
  simp only [saveServer, bind_eq_ok] at h
  obtain ⟨parsed, hparsed, subscription, hsub, -, -, ⟨id, given⟩, hid, name, -, state, hst, h⟩ := h
  have hs := stateRecord_ok (stateAt_record hst)
  obtain ⟨hservers, -⟩ := stateRecord_lists (stateAt_record hst)
  obtain ⟨htag, hgiven, hdrawn⟩ := serverId_ok hid
  have hadm := admitServer_ok hparsed
  by_cases hany : state.servers.any (·.key = id)
  · simp only [hany, if_true, pure_eq_ok] at h
    subst h
    refine accepted_raw (ok_bump (ok_replaceServer hs (fun v => by split <;> rfl) ?_))
    intro v hv hbody
    split
    · rename_i hkey
      subst hkey
      refine newServer_body _ htag hadm hsub fun hprot => ?_
      split
      · rename_i hpres
        simp only [preservesPortable, Bool.and_eq_true, decide_eq_true_eq] at hpres
        obtain ⟨⟨-, htrim⟩, hport⟩ := hpres
        obtain ⟨hengine, t, ht, himp⟩ := admitServer_core hparsed hprot
        have hgv : given = true := by
          by_contra hg
          have hfresh := (fresh_id hf ("server-".toList ++ out.draw.id) (by simp [Draw.ids])).1
          exact hfresh v (hservers ▸ hv) (hdrawn (by simpa using hg))
        exact hsound hengine v (hservers ▸ hv) (hgiven hgv) hport t ht
          (by simpa [ht] using htrim) _ himp
      · exact hadm.portable hprot
    · exact hbody
  · simp only [hany, Bool.false_eq_true, if_false, bind_eq_ok, require_eq_ok, pure_eq_ok] at h
    obtain ⟨-, hg, rfl⟩ := h
    refine accepted_raw (ok_bump (ok_addServer hs ?_ ?_))
    · exact newServer_body parsed.portableProfile htag hadm hsub hadm.portable
    · exact fun v hv hk => hany (List.any_eq_true.2 ⟨v, hv, decide_eq_true hk⟩)

theorem deleteServer_accepted {args : IdArgs}
    (h : deleteServer env out disk args = .ok disk') : Accepted env disk'.state := by
  simp only [deleteServer, bind_eq_ok, pure_eq_ok] at h
  obtain ⟨state, hst, -, -, rfl⟩ := h
  exact accepted_raw (ok_bump (ok_deleteServer (stateRecord_ok (stateAt_record hst))))

theorem startServer_accepted {args : IdArgs} (ha : Accepted env disk.state)
    (h : startServer env out disk args = .ok disk') : Accepted env disk'.state := by
  simp only [startServer, bind_eq_ok] at h
  obtain ⟨state, hst, h⟩ := h
  have hs := stateRecord_ok (stateAt_record hst)
  cases hfind : state.servers.find? (·.key = args.id) with
  | none => simp [hfind] at h
  | some selected =>
    simp only [hfind, bind_eq_ok] at h
    obtain ⟨-, -, h⟩ := h
    split at h
    · cases h; exact ha
    · cases h
      have hmem := List.mem_of_find?_eq_some hfind
      have hkey : selected.key = args.id := by simpa using List.find?_some hfind
      refine accepted_raw (ok_bump ⟨hs.policy, hs.servers, ?_, hs.clients⟩)
      rintro id ⟨⟩
      exact mem_serverIds.2 ⟨selected, hmem, hkey⟩

theorem stopServer_accepted {revision : Field ℤ} (ha : Accepted env disk.state)
    (h : stopServer env out disk revision = .ok disk') : Accepted env disk'.state := by
  simp only [stopServer, bind_eq_ok] at h
  obtain ⟨state, hst, h⟩ := h
  have hs := stateRecord_ok (stateForRevocation_record hst)
  split at h
  · cases h; exact ha
  · cases h
    exact accepted_raw (ok_bump ⟨hs.policy, hs.servers, by simp, hs.clients⟩)

theorem chooseServer_ok {f : Field Text} {serverId : Field Text}
    (h : chooseServer state f = .ok serverId) :
    Model.refersTo (serverIds state.servers) serverId = true := by
  have hfirst : chooseServer state .missing = .ok serverId →
      Model.refersTo (serverIds state.servers) serverId = true := by
    intro h
    cases hv : state.servers with
    | nil => simp only [chooseServer, hv] at h; cases h; rfl
    | cons v vs => simp only [chooseServer, hv] at h; cases h; simp [Model.refersTo]
  rcases f with _ | _ | _ | ⟨c, t⟩
  · exact hfirst h
  · cases h
  · exact hfirst h
  · by_cases hany : state.servers.any (·.key = c :: t)
    · simp only [chooseServer, hany, if_true] at h
      cases h
      simpa [Model.refersTo] using hany
    · simp [chooseServer, hany] at h

/-- A saved client is well formed when its listener, if it has one, got a port. -/
theorem listener_ok (seen : List Text) {base : Base} {client client' : Client}
    (hi : client.inbound = false)
    (hshape : Model.clientShape client = true)
    (hport : (Inbound.usedPorts state.clients).length < Inbound.limit base →
      PortFree base (Inbound.usedPorts state.clients))
    (h : listener state base out client = .ok client') :
    Model.clientShape client' = true ∧ client'.key = client.key ∧
      Model.refersTo seen client'.serverId = true := by
  simp only [listener, bind_eq_ok, require_eq_ok, pure_eq_ok] at h
  obtain ⟨-, hlt, rfl⟩ := h
  obtain ⟨port, hp, h1, h2⟩ := freePort_bounds (hport hlt)
  refine ⟨?_, rfl, rfl⟩
  simp only [Model.clientShape, hi, Bool.not_false, Bool.true_or, Bool.and_true] at hshape
  simpa [Model.clientShape, Client.key, Model.listens, hp, h1, h2, out.draw.secret.2] using hshape

theorem saveClient_accepted {args : ClientArgs} (hf : Fresh world out.draw)
    (hsound : Sound env world (.saveClient args, out))
    (h : saveClient env out world.disk args = .ok disk') : Accepted env disk'.state := by
  simp only [saveClient, bind_eq_ok, require_eq_ok, pure_eq_ok] at h
  obtain ⟨name, -, -, hdt, state, hst, serverId, hsv, client, hclient, rfl⟩ := h
  have hs := stateRecord_ok (stateAt_record hst)
  obtain ⟨-, hclients⟩ := stateRecord_lists (stateAt_record hst)
  have hkey : (tagged "client".toList 12).accepts ("client-".toList ++ out.draw.id) = true :=
    tagged_append "client".toList out.draw.id
  have hnew : ∀ other ∈ state.clients, other.key ≠ "client-".toList ++ out.draw.id :=
    hclients ▸ (fresh_id hf _ (by simp [Draw.ids])).2
  have hshape : Model.clientShape (outgoingClient ("client-".toList ++ out.draw.id) name
      args.deviceType serverId) = true := by
    simpa [Model.clientShape, outgoingClient, Client.key, hdt] using hkey
  cases hb : world.disk.base with
  | none =>
    simp only [hb, savedClient] at hclient
    cases hclient
    exact accepted_raw (ok_bump (ok_addClient hs hshape hnew (chooseServer_ok hsv)))
  | some base =>
    simp only [hb, savedClient] at hclient
    obtain ⟨hs', hk, hr⟩ := listener_ok (serverIds state.servers) rfl hshape
      (hclients ▸ hsound base hb) hclient
    exact accepted_raw (ok_bump (ok_addClient hs hs' (hk ▸ hnew) hr))

theorem updateClient_accepted {args : IdArgs} {name : Text}
    (h : updateClient env out disk args name = .ok disk') : Accepted env disk'.state := by
  simp only [updateClient, bind_eq_ok, pure_eq_ok] at h
  obtain ⟨name, -, state, hst, -, -, rfl⟩ := h
  refine accepted_raw (ok_bump (ok_mapFirst (stateRecord_ok (stateAt_record hst)) ?_))
  refine fun c _ _ => ⟨rfl, rfl, fun hc => ?_⟩
  simp only [Model.clientShape, Bool.and_eq_true] at hc ⊢
  exact ⟨⟨⟨hc.1.1.1, rfl⟩, hc.1.2⟩, hc.2⟩

theorem clientAccess_accepted {args : IdArgs} {allowLan : Bool}
    (h : clientAccess env out disk args allowLan = .ok disk') : Accepted env disk'.state := by
  simp only [clientAccess, bind_eq_ok, pure_eq_ok] at h
  obtain ⟨-, -, state, hst, -, -, rfl⟩ := h
  refine accepted_raw (ok_bump (ok_mapFirst (stateRecord_ok (stateForRevocation_record hst)) ?_))
  refine fun c _ _ => ⟨rfl, rfl, fun hc => ?_⟩
  simp only [Model.clientShape, Bool.and_eq_true, Bool.or_eq_true] at hc ⊢
  refine ⟨hc.1, hc.2.imp id fun hl => ?_⟩
  unfold Model.listens at hl ⊢
  split at hl
  · simp_all
  · cases hl

theorem deleteClient_accepted {args : IdArgs} {revoked : Bool}
    (hsound : Sound env world (.deleteClient args, out))
    (h : deleteClient env out world.disk args = .ok (disk', revoked)) :
    Accepted env disk'.state := by
  simp only [deleteClient, bind_eq_ok] at h
  obtain ⟨state, hst, h⟩ := h
  have hs := stateRecord_ok (stateForRevocation_record hst)
  obtain ⟨-, hclients⟩ := stateRecord_lists (stateForRevocation_record hst)
  cases hfind : state.clients.find? (·.key = args.id) with
  | none => simp [hfind] at h
  | some client =>
    have hmem := List.mem_of_find?_eq_some hfind
    have hkey : client.key = args.id := by simpa using List.find?_some hfind
    have hok := ok_bump (ok_deleteClient args.id hs
      (hclients ▸ hsound ⟨client, hclients ▸ hmem, hkey⟩))
    simp only [hfind] at h
    split at h
    · simp only [bind_eq_ok, pure_eq_ok] at h
      obtain ⟨_, -, h⟩ := h
      cases h
      exact accepted_raw hok
    · cases h
      exact accepted_raw hok

theorem provision_accepted {paired : Pairing.Session} {args : ProvisionArgs} {p : Provision}
    (h : prepareProvision env intentDigest out disk paired args = .ok p) :
    Accepted env p.state.raw := by
  simp only [prepareProvision, bind_eq_ok] at h
  obtain ⟨address, -, h⟩ := h
  cases hmac : out.resolveMac address with
  | none => simp [hmac] at h
  | some mac =>
    simp only [hmac, bind_eq_ok, pure_eq_ok] at h
    obtain ⟨-, -, state, -, base, -, stored, -, ⟨phones, phone⟩, -, ⟨state', changed⟩, happ,
      -, -, rfl⟩ := h
    simp only [Mobile.apply, bind_eq_ok, pure_eq_ok] at happ
    obtain ⟨_, -, _, -, _, -, s, hs, he⟩ := happ
    cases he
    exact accepted_raw (Model.validateState_ok hs)

theorem defaults_ok : Model.defaults.Ok env where
  policy := ⟨trivial, by decide, trivial, by decide, trivial, by decide⟩
  servers := trivial
  active := by simp [Model.defaults]
  clients := trivial

theorem setupReset_accepted {revision : Field ℤ}
    (h : setupReset env out disk revision = .ok disk') : Accepted env disk'.state := by
  simp only [setupReset, bind_eq_ok, pure_eq_ok] at h
  obtain ⟨state, -, -, -, rfl⟩ := h
  have hd : Model.defaults.Ok env := defaults_ok
  exact accepted_raw ⟨hd.policy, hd.servers, hd.active, hd.clients⟩

end Calls

/-- One call that meets its condition keeps state.json acceptable. -/
theorem accepted_step {w w' : World} {label : Request × Outside}
    (h : Step env intentDigest w label w') (hs : Sound env w label)
    (ha : Accepted env w.disk.state) : Accepted env w'.disk.state := by
  obtain ⟨hf, hp⟩ := h
  rename_i request out disk
  cases request with
  | settings args => exact settings_accepted hp
  | saveServer args => exact saveServer_accepted hf hs hp
  | deleteServer args => exact deleteServer_accepted hp
  | startServer args => exact startServer_accepted ha hp
  | stopServer revision => exact stopServer_accepted ha hp
  | saveClient args => exact saveClient_accepted hf hs hp
  | updateClient args name => exact updateClient_accepted hp
  | clientAccess args allowLan => exact clientAccess_accepted hp
  | deleteClient args =>
    simp only [perform, map_eq_ok] at hp
    obtain ⟨⟨d, revoked⟩, hd, rfl⟩ := hp
    exact deleteClient_accepted hs hd
  | provision paired args =>
    simp only [perform, map_eq_ok] at hp
    obtain ⟨p, hp, rfl⟩ := hp
    by_cases hc : p.changed
    · simpa [Provision.files, hc] using provision_accepted hp
    · simpa [Provision.files, hc] using ha
  | provisionCut paired args =>
    simp only [perform, map_eq_ok] at hp
    obtain ⟨p, -, rfl⟩ := hp
    exact ha
  | provisionRefused createRemote =>
    simp only [perform, bind_eq_ok, pure_eq_ok] at hp
    obtain ⟨_, -, rfl⟩ := hp
    exact ha
  | setupReset revision => exact setupReset_accepted hp
  | pairCreate =>
    simp only [perform, bind_eq_ok, pure_eq_ok] at hp
    obtain ⟨_, -, rfl⟩ := hp
    exact ha
  | pairRevoke id =>
    simp only [perform, bind_eq_ok, pure_eq_ok] at hp
    obtain ⟨_, -, rfl⟩ := hp
    exact ha
  | setPin =>
    cases hp
    exact ha

/-! One listener left below the end of the port range, and two clients to be saved. -/

/-- An environment whose configuration syntaxes accept nothing. -/
def plainEnv : Env where
  inet := decimalInet
  sha256 := id
  coreJson := fun _ => none
  parseBody := fun _ => .error .invalidConfig

theorem isHex_zero : isHex '0' = true := by decide

theorem isHex_one : isHex '1' = true := by decide

theorem isHex_two : isHex '2' = true := by decide

/-- A draw whose identifiers end in `c`. -/
def plainDraw (c : Char) (hc : isHex c = true) : Draw where
  id := ⟨"00000000000".toList ++ [c], Regex.accepts_rep_cls.2 ⟨rfl, by simpa [hc] using isHex_zero⟩⟩
  device :=
    ⟨"00000000000".toList ++ [c], Regex.accepts_rep_cls.2 ⟨rfl, by simpa [hc] using isHex_zero⟩⟩
  secret := ⟨List.replicate 64 c, Regex.accepts_rep_cls.2 ⟨by simp, by simp [hc]⟩⟩

def plainOutside (c : Char) (hc : isHex c = true) : Outside where
  standalone := true
  resolveMac := fun _ => none
  coreImport := fun _ => none
  revisionAllowed := false
  profile := fun _ _ => true
  remoteBase := .error .unavailable
  draw := plainDraw c hc

/-- A base whose first listener port is the last port there is. -/
def lastPortBase : Base := ⟨.value "per-client".toList, .value 65535⟩

def lastPortClient (c : Char) (port : ℤ) : Client where
  id := .value ("client-00000000000".toList ++ [c])
  name := .value "phone".toList
  deviceType := .value "smartphone".toList
  provisioned := .value false
  inbound := true
  port := .value port
  secret := .value (List.replicate 64 c)
  allowLan := .value false

def lastPortState (revision : ℕ) (clients : List Client) : State :=
  { Model.defaults with revision, clients }

def lastPortWorld (revision : ℕ) (clients : List Client) (issued : List Text) : World :=
  ⟨{ state := (lastPortState revision clients).raw, base := some lastPortBase }, issued⟩

def saveSmartphone (revision : ℤ) : ClientArgs where
  revision := .value revision
  name := "phone".toList
  deviceType := "smartphone".toList

theorem save_first :
    perform plainEnv (fun _ => []) (plainOutside '1' rfl) (lastPortWorld 0 [] []).disk
    (.saveClient (saveSmartphone 0)) =
    .ok (lastPortWorld 1 [lastPortClient '1' 65535] []).disk := by decide

/-- A run whose calls all meet their conditions never leaves a state that the next call cannot
read. -/
theorem accepted_run {w w' : World} {calls : List (Request × Outside)}
    (h : Run (Guarded (Sound env) (Step env intentDigest)) w calls w')
    (ha : Accepted env w.disk.state) : Accepted env w'.disk.state :=
  h.invariant (I := fun w => Accepted env w.disk.state)
    (fun _ _ _ ha hstep => accepted_step hstep.2 hstep.1 ha) ha

/-- A run that meets the conditions: the last port goes to the first listener. -/
theorem accepted_run_lastPort :
    Accepted plainEnv (lastPortState 1 [lastPortClient '1' 65535]).raw := by
  have hsound : Sound plainEnv (lastPortWorld 0 [] [])
      (.saveClient (saveSmartphone 0), plainOutside '1' rfl) := by
    rintro base ⟨⟩ _
    exact Or.inr ⟨65535, rfl, by decide, 65535, by decide, by decide, by decide⟩
  exact accepted_run (.stepL ⟨hsound, .call (by unfold Fresh; decide) save_first⟩ (.refl _))
    (accepted_raw defaults_ok)

/-- The invariant fails when the last port is taken: the second listener is stored on port 65536,
and no later call can read the state. -/
theorem accepted_broken : ¬ ∀ (env : Env) (intentDigest : Mobile.Intent → Text) (w w' : World)
    (calls : List (Request × Outside)), Run (Step env intentDigest) w calls w' →
    Accepted env w.disk.state → Accepted env w'.disk.state := by
  intro h
  have hsecond : perform plainEnv (fun _ => []) (plainOutside '2' rfl)
      (lastPortWorld 1 [lastPortClient '1' 65535] []).disk (.saveClient (saveSmartphone 1)) =
      .ok (lastPortWorld 2 [lastPortClient '1' 65535, lastPortClient '2' 65536] []).disk := by
    decide
  have hbad : ¬ Accepted plainEnv
      (lastPortState 2 [lastPortClient '1' 65535, lastPortClient '2' 65536]).raw := by
    unfold Accepted; decide
  refine hbad (h plainEnv (fun _ => []) (lastPortWorld 0 [] []) _ _
    (.stepL (.call (by unfold Fresh; decide) save_first)
      (.stepL (.call (by unfold Fresh; decide) hsecond) (.refl _))) (accepted_raw defaults_ok))

end Foxhole.Rpc
