import Foxhole.BackupModel

/-! Exporting a backup: which stored states have a document. -/
namespace Foxhole.Backup
open Check Text

/-- `export_document(current, panel_value, enabled, now)` on a state as it is stored. -/
def exportState (env : Env) (js : Json) (raw : RawState) (panel : Panel)
    (enabled : Bool) (now : ℤ) :
    Except Err Checked := do
  let state ← checkState env js raw
  validateDocument env js (Checked.document ⟨now, setAccess state panel.access, panel, enabled⟩)

/-! The bytes of a printed document, of which only those of the state are not known. -/

/-- An option of plain letters, or null. -/
def textBytes (value : Field Text) : ℕ :=
  match value with
  | .value value => value.length + 2
  | _ => 4

def listBytes (value : Field (List Text)) : ℕ :=
  match value with
  | .value names => (names.map fun name => name.length + 4).sum + 4
  | _ => 4

def Panel.names : List String :=
  ["mode", "telemetry_interval", "standalone", "lan_devices", "mobile_devices", "dns_via_tunnel",
    "preserve_loopback_socks", "tun_mtu"]

/-- Each name with its quotes, its colon, its comma and two blanks, in two braces. -/
def panelBytes (panel : Panel) : ℕ :=
  (Panel.names.map fun name => name.length + 6).sum + 4 + (textBytes panel.mode +
    textBytes panel.telemetryInterval + textBytes panel.standalone + listBytes panel.lanDevices +
    listBytes panel.mobileDevices + textBytes panel.dnsViaTunnel +
    textBytes panel.preserveLoopbackSocks + textBytes panel.tunMtu)

/-- The document around its state and its panel, with a time of at most sixteen digits. -/
def frameBytes : ℕ :=
  ("\x7b \"schema\": 1, \"kind\": \"foxhole-settings-backup-v1\", \"createdAtUnixMs\": " ++
    "9007199254740991, \"state\": , \"panel\": , " ++
    "\"autoUpdate\": \x7b \"enabled\": false \x7d \x7d").length

theorem frameBytes_le : frameBytes ≤ 200 := by
  rw [frameBytes, ← String.length_toList, String.toList_append, String.toList_append]
  -- the literals as lists of characters, so that the check need not decode them
  iterate 3 rw [String.toList_ofList]
  decide +kernel

/-- How a state and a document print, and what `check_tree` says of their members. -/
structure Sizes (js : Json) where
  /-- `length(sprintf('%J', state))` -/
  stateBytes : RawState → ℕ
  /-- `length(sprintf('%J', document))` -/
  documentBytes : Document → ℕ
  /-- the members of the state are the nine -/
  nine : RawState → Bool
  /-- no object lies deeper than sixteen levels, and none has a forbidden member -/
  tree : Document → Bool
  stateFits : ∀ raw, js.stateFits raw = true ↔ nine raw = true ∧ stateBytes raw ≤ 262144
  documentFits : ∀ document, js.documentFits document = true ↔
    tree document = true ∧ documentBytes document ≤ 294912
  written : ∀ state : State, nine state.raw = true
  document_le : ∀ checked : Checked, 0 ≤ checked.createdAtUnixMs →
    checked.createdAtUnixMs ≤ 9007199254740991 → panelFits checked.panel = true →
    documentBytes checked.document ≤
      frameBytes + stateBytes checked.state.raw + panelBytes checked.panel

variable {env : Env} {js : Json} {raw : RawState} {state : State} {panel : Panel} {enabled : Bool}
  {now : ℤ} {checked : Checked} {document : Document}

theorem textBytes_le {value : Field Text} {ok : Text → Bool} {n : ℕ} (h : optional value ok = true)
    (hok : ∀ t, ok t = true → t.length ≤ n) : textBytes value ≤ n + 4 := by
  cases value with
  | missing => simp [textBytes]
  | invalid => cases h
  | value t =>
    have := hok t h
    simp only [textBytes]
    omega

theorem sum_names_le {names : List Text} (h : ∀ name ∈ names, isDevice name = true) :
    (names.map fun name => name.length + 4).sum ≤ names.length * 36 := by
  induction names with
  | nil => simp
  | cons name names ih =>
    obtain ⟨hname, hrest⟩ := List.forall_mem_cons.1 h
    simp only [isDevice, Bool.and_eq_true, decide_eq_true_eq] at hname
    have := ih hrest
    simp only [List.map_cons, List.sum_cons, List.length_cons]
    omega

theorem listBytes_le {value : Field (List Text)} {ok : List Text → Bool} {n : ℕ}
    (h : optional value ok = true) (hok : ∀ names, ok names = true → isDevices n names = true) :
    listBytes value ≤ n * 36 + 4 := by
  cases value with
  | missing => simp [listBytes]
  | invalid => cases h
  | value names =>
    have hdevices := hok names h
    simp only [isDevices, Bool.and_eq_true, decide_eq_true_eq, List.all_eq_true] at hdevices
    obtain ⟨⟨hlen, hall⟩, -⟩ := hdevices
    have hsum := sum_names_le hall
    simp only [listBytes]
    have := Nat.mul_le_mul_right 36 hlen
    omega

theorem isSwitch_length (t : Text) (h : isSwitch t = true) : t.length ≤ 1 := by
  simp only [isSwitch, Bool.or_eq_true, decide_eq_true_eq] at h
  rcases h with rfl | rfl <;> decide

theorem number_length {p : ℕ → Bool} (t : Text) (h : (number t).any p = true) : t.length ≤ 4 := by
  unfold number at h
  split at h
  · rename_i hd
    exact hd.2.1
  · cases h

theorem panelBytes_le (h : panelFits panel = true) : panelBytes panel ≤ 2000 := by
  simp only [panelFits, Bool.and_eq_true] at h
  obtain ⟨⟨⟨⟨⟨⟨⟨hmode, hinterval⟩, hstandalone⟩, hlan⟩, hmobile⟩, hdns⟩, hsocks⟩, hmtu⟩ := h
  have h1 : textBytes panel.mode ≤ 7 + 4 := textBytes_le hmode fun t ht => by
    simp only [Bool.or_eq_true, decide_eq_true_eq] at ht
    rcases ht with rfl | rfl <;> decide
  have h2 := textBytes_le hinterval number_length
  have h3 := textBytes_le hstandalone isSwitch_length
  have h4 := listBytes_le hlan fun _ hn => hn
  have h5 : listBytes panel.mobileDevices ≤ 8 * 36 + 4 := listBytes_le hmobile fun _ hn => by
    simp only [Bool.and_eq_true] at hn
    exact hn.1
  have h6 := textBytes_le hdns isSwitch_length
  have h7 := textBytes_le hsocks isSwitch_length
  have h8 := textBytes_le hmtu number_length
  have hnames : (Panel.names.map fun name => name.length + 6).sum = 149 := by decide
  simp only [panelBytes, hnames]
  omega

/-! When a stored state has a document. -/

/-- The standalone switch does not matter to the invariant. -/
theorem setAccess_ok {access : Bool} (h : state.Ok env) : (setAccess state access).Ok env :=
  ⟨⟨h.policy.countries, h.policy.countries_le, h.policy.devices, h.policy.devices_le,
    h.policy.sites, h.policy.sites_le⟩, h.servers, h.active, h.clients⟩

theorem checkState_eq_ok : checkState env js raw = .ok state ↔
    js.stateFits raw = true ∧ (bounded raw.countries ∧ bounded raw.devices ∧ bounded raw.sites ∧
      bounded raw.servers ∧ bounded raw.clients) ∧ Model.validateState env raw = .ok state := by
  simp only [checkState, bind_eq_ok, require_eq_ok]
  cases hv : Model.validateState env raw with
  | ok found =>
    simp only [pure_eq_ok, Except.ok.injEq]
    constructor
    · rintro ⟨_, hf, _, hb, he⟩
      exact ⟨hf, hb, he⟩
    · rintro ⟨hf, hb, he⟩
      exact ⟨(), hf, (), hb, he⟩
  | error e => simp

theorem validateDocument_eq_ok : validateDocument env js document = .ok checked ↔
    js.documentFits document = true ∧ (document.schema = .value 1 ∧ document.kind = .value kind) ∧
      document.createdAtUnixMs = .value checked.createdAtUnixMs ∧
      document.enabled = .value checked.enabled ∧
      (0 ≤ checked.createdAtUnixMs ∧ checked.createdAtUnixMs ≤ 9007199254740991) ∧
      checkState env js document.state = .ok checked.state ∧ panelFits document.panel = true ∧
      document.panel = checked.panel ∧
      checked.state.settings.standaloneAccess = document.panel.access := by
  obtain ⟨created, state, panel, enabled⟩ := checked
  simp only [validateDocument, bind_eq_ok, require_eq_ok]
  constructor
  · rintro ⟨-, hf, -, hk, h⟩
    split at h
    · rename_i hc he
      simp only [bind_eq_ok, require_eq_ok, pure_eq_ok] at h
      obtain ⟨-, hr, state', hs, -, hp, -, ha, h⟩ := h
      cases h
      exact ⟨hf, hk, hc, he, hr, hs, hp, rfl, ha⟩
    · cases h
  · rintro ⟨hf, hk, hc, he, hr, hs, hp, rfl, ha⟩
    refine ⟨(), hf, (), hk, ?_⟩
    rw [hc, he]
    simp only [bind_eq_ok, require_eq_ok, pure_eq_ok]
    exact ⟨(), hr, state, hs, (), hp, (), ha, rfl⟩

/-- A stored state has as many sites as were read. -/
theorem sites_length (h : Model.validateState env raw = .ok state) (hb : bounded raw.sites = true) :
    state.sites.length ≤ 512 := by
  simp only [Model.validateState, bind_eq_ok, require_eq_ok, pure_eq_ok] at h
  obtain ⟨-, -, rev, -, -, -, -, -, policy, hp, -, -, -, -, -, -, -, -, -, -, rfl⟩ := h
  cases hs : raw.settings with
  | missing => simp [hs, Policy.validateSettings] at hp
  | invalid => simp [hs, Policy.validateSettings] at hp
  | value settings =>
    simp only [hs, Policy.validateSettings, bind_eq_ok, pure_eq_ok] at hp
    obtain ⟨_, -, _, -, _, -, sites, hsites, _, -, _, -, found, hfound, rfl⟩ := hp
    cases hr : raw.sites with
    | missing => simp [hr, bounded] at hb
    | invalid => simp [hr, bounded] at hb
    | value list =>
      have hlen : list.length ≤ 512 := by simpa [hr, bounded] using hb
      have hsame : sites = list := by
        rw [hr, Policy.listOf] at hsites
        split at hsites
        · exact (Except.ok.inj hsites).symm
        · cases hsites
      rw [← hsame, ← scan_length hfound] at hlen
      exact hlen

/-- Every list of the stored state is an array of at most 512 entries. -/
def Listed (raw : RawState) : Prop :=
  bounded raw.countries ∧ bounded raw.devices ∧ bounded raw.sites ∧ bounded raw.servers ∧
    bounded raw.clients

theorem listed_setAccess {access : Bool} (h : Model.validateState env raw = .ok state)
    (hb : Listed raw) : Listed (setAccess state access).raw := by
  have hok := Model.validateState_ok h
  obtain ⟨hservers, hclients⟩ := Rpc.validateState_lists h
  obtain ⟨-, -, hsites, hbs, hbc⟩ := hb
  have hcountries : state.countries.length ≤ 512 := hok.policy.countries_le.trans (by decide)
  have hdevices := hok.policy.devices_le
  have hsites := sites_length h hsites
  rw [hservers] at hbs
  rw [hclients] at hbc
  refine ⟨?_, ?_, ?_, hbs, hbc⟩
  · simpa [bounded, setAccess, State.raw, Policy.raw] using hcountries
  · simpa [bounded, setAccess, State.raw, Policy.raw] using hdevices
  · simpa [bounded, setAccess, State.raw, Policy.raw] using hsites

/-- The document is exported, and is accepted as it stands. -/
def Exported (env : Env) (js : Json) (raw : RawState) (panel : Panel) (enabled : Bool) (now : ℤ) :
    Prop :=
  ∃ checked, exportState env js raw panel enabled now = .ok checked ∧
    validateDocument env js checked.document = .ok checked

/-- A stored state has a document if and only if its lists are short enough, it fits as it is
rewritten, no member of it lies too deep, and the time is an exact number. -/
theorem exported_iff (env : Env) (js : Json) (sizes : Sizes js) (raw : RawState) (state : State)
    (panel : Panel) (enabled : Bool) (now : ℤ) (hfits : js.stateFits raw = true)
    (hstate : Model.validateState env raw = .ok state) (hpanel : panelFits panel = true)
    (hnow : 0 ≤ now) :
    Exported env js raw panel enabled now ↔ Listed raw ∧
      sizes.stateBytes (setAccess state panel.access).raw ≤ 262144 ∧
      sizes.tree (Checked.document ⟨now, setAccess state panel.access, panel, enabled⟩) = true ∧
      now ≤ 9007199254740991 := by
  have hok : (setAccess state panel.access).Ok env := setAccess_ok (Model.validateState_ok hstate)
  have hcheck {checked : Checked} :
      exportState env js raw panel enabled now = .ok checked ↔ Listed raw ∧ validateDocument env js
        (Checked.document ⟨now, setAccess state panel.access, panel, enabled⟩) = .ok checked := by
    simp only [exportState, bind_eq_ok, checkState_eq_ok]
    constructor
    · rintro ⟨found, ⟨-, hb, hv⟩, h⟩
      cases hstate.symm.trans hv
      exact ⟨hb, h⟩
    · rintro ⟨hb, h⟩
      exact ⟨state, ⟨hfits, hb, hstate⟩, h⟩
  constructor
  · rintro ⟨checked, hexport, -⟩
    obtain ⟨hb, hdocument⟩ := hcheck.1 hexport
    obtain ⟨hf, -, hcreated, -, htime, hs, -, -, -⟩ := validateDocument_eq_ok.1 hdocument
    have hcreated : now = checked.createdAtUnixMs := Field.value.inj hcreated
    exact ⟨hb, ((sizes.stateFits _).1 (checkState_eq_ok.1 hs).1).2, ((sizes.documentFits _).1 hf).1,
      hcreated ▸ htime.2⟩
  · rintro ⟨hb, hbytes, htree, htime⟩
    have hdocument : validateDocument env js
        (Checked.document ⟨now, setAccess state panel.access, panel, enabled⟩) =
        .ok ⟨now, setAccess state panel.access, panel, enabled⟩ := by
      refine validateDocument_eq_ok.2
        ⟨?_, ⟨rfl, rfl⟩, rfl, rfl, ⟨hnow, htime⟩, ?_, hpanel, rfl, rfl⟩
      · refine (sizes.documentFits _).2 ⟨htree, ?_⟩
        have hle := sizes.document_le ⟨now, setAccess state panel.access, panel, enabled⟩ hnow htime
          hpanel
        have hpanel := panelBytes_le hpanel
        have hframe := frameBytes_le
        simp only at hle
        omega
      · exact checkState_eq_ok.2 ⟨(sizes.stateFits _).2 ⟨sizes.written _, hbytes⟩,
          listed_setAccess hstate hb, Model.validateState_raw hok⟩
    exact ⟨_, hcheck.2 ⟨hb, hdocument⟩, hdocument⟩

/-! A small state, and one with more clients than a document holds. -/

/-- The default state as it prints. -/
def defaultMembers : List String :=
  ["\x7b \"schema\": 1, \"revision\": 0, \"activeServerId\": null, \"settings\": \x7b ",
    "\"language\": \"ru\", \"standaloneAccess\": false, \"localRules\": false, ",
    "\"localScope\": \"all\", \"clientRules\": false, \"killSwitch\": false, ",
    "\"darkStyle\": false, \"darkCharts\": true, \"plainHeadings\": false, ",
    "\"hideRouterStatus\": false, \"theme\": \"dark\" \x7d, \"countries\": [ ], ",
    "\"devices\": [ ], \"sites\": [ ], \"servers\": [ ], \"clients\": [ ] \x7d"]

def defaultBytes : ℕ := (defaultMembers.map String.length).sum

theorem defaultBytes_eq : defaultBytes = 388 := by
  have h : defaultMembers.map String.length = [68, 66, 64, 64, 64, 62] := by
    simp only [defaultMembers, List.map_cons, List.map_nil]
    iterate 6 rw [String.length_ofList]
    rfl
  rw [defaultBytes, h]
  rfl

/-- A client with three members, and its comma. -/
def clientBytes (client : Client) : ℕ :=
  (["id", "name", "deviceType"].map fun name => name.length + 6).sum + 6 + (textBytes client.id +
    textBytes client.name + textBytes client.deviceType)

/-- A state that has clients beside the defaults. -/
def stateBytes (raw : RawState) : ℕ :=
  defaultBytes + ((raw.clients.value?.getD []).map clientBytes).sum

def documentBytes (document : Document) : ℕ :=
  frameBytes + stateBytes document.state + panelBytes document.panel

def clientJson : Json where
  stateFits raw := stateBytes raw ≤ 262144
  documentFits document := documentBytes document ≤ 294912

def clientSizes : Sizes clientJson where
  stateBytes := stateBytes
  documentBytes := documentBytes
  nine _ := true
  tree _ := true
  stateFits _ := by simp [clientJson]
  documentFits _ := by simp [clientJson]
  written _ := rfl
  document_le _ _ _ _ := le_rfl

def bareEnv : Env where
  inet := decimalInet
  sha256 := id
  coreJson _ := none
  parseBody _ := .error .invalidConfig

def barePanel : Panel := { mode := .value "runtime".toList, lanDevices := .value ["br-lan".toList] }

theorem defaults_valid : Model.validateState bareEnv Model.defaults.raw = .ok Model.defaults := by
  decide

/-- Twelve binary digits. -/
def digits (i : ℕ) : Text := (List.range 12).map fun j => if i.testBit j then '1' else '0'

theorem digits_inj {i j : ℕ} (hi : i < 4096) (hj : j < 4096) (h : digits i = digits j) : i = j := by
  refine Nat.eq_of_testBit_eq fun k => ?_
  by_cases hk : k < 12
  · have hat := List.map_inj_left.1 h k (List.mem_range.2 hk)
    cases hbi : i.testBit k <;> cases hbj : j.testBit k <;> simp_all
  · have hpow : 4096 ≤ 2 ^ k := by
      calc 4096 = 2 ^ 12 := by norm_num
        _ ≤ 2 ^ k := Nat.pow_le_pow_right (by norm_num) (by omega)
    rw [Nat.testBit_lt_two_pow (hi.trans_le hpow), Nat.testBit_lt_two_pow (hj.trans_le hpow)]

def manyClient (i : ℕ) : Client where
  id := .value ("client-".toList ++ digits i)
  name := .value "Phone".toList
  deviceType := .value "smartphone".toList

def manyClients (n : ℕ) : List Client := (List.range n).map manyClient

def stateWith (clients : List Client) : State := { Model.defaults with clients }

theorem manyClient_shape (i : ℕ) : Model.clientShape (manyClient i) = true := by
  have hid : (tagged "client".toList 12).accepts (manyClient i).key = true := by
    refine Regex.accepts_lit_rep.2 ⟨digits i, rfl, by simp [digits], fun c hc => ?_⟩
    obtain ⟨j, -, rfl⟩ := List.mem_map.1 hc
    split <;> decide
  have hrest : ((some "Phone".toList).isSome &&
      ((some "smartphone".toList).any (· ∈ Model.deviceTypes)) && true) = true := by decide
  unfold Model.clientShape
  rw [hid]
  exact hrest

theorem stateWith_ok {clients : List Client}
    (h : Scanned Client.keys (fun seen client => Model.clientShape client = true ∧
      Model.refersTo seen client.serverId = true) [] clients) : (stateWith clients).Ok bareEnv := by
  have hdefaults := Model.validateState_ok defaults_valid
  exact ⟨hdefaults.policy, hdefaults.servers, hdefaults.active, h⟩

theorem scanned_many {l : List ℕ} (hl : l.Nodup) (hlt : ∀ i ∈ l, i < 4096) (seen : List Text)
    (hseen : ∀ i ∈ l, (manyClient i).key ∉ seen) :
    Scanned Client.keys (fun seen client => Model.clientShape client = true ∧
      Model.refersTo seen client.serverId = true) seen (l.map manyClient) := by
  induction l generalizing seen with
  | nil => trivial
  | cons i l ih =>
    obtain ⟨hi, hl⟩ := List.nodup_cons.1 hl
    refine ⟨⟨⟨manyClient_shape i, rfl⟩, ?_⟩, ih hl (fun j hj => hlt j (List.mem_cons_of_mem i hj)) _
      fun j hj hmem => ?_⟩
    · exact List.singleton_disjoint.2 (hseen i List.mem_cons_self)
    · rcases List.mem_append.1 hmem with hmem | hmem
      · have hkey : "client-".toList ++ digits j = "client-".toList ++ digits i :=
          List.mem_singleton.1 hmem
        have hdigits := List.append_cancel_left hkey
        have hij := digits_inj (hlt j (List.mem_cons_of_mem i hj))
            (hlt i List.mem_cons_self) hdigits
        exact hi (hij ▸ hj)
      · exact hseen j (List.mem_cons_of_mem i hj) hmem

theorem many_valid {n : ℕ} (hn : n ≤ 4096) :
    Model.validateState bareEnv (stateWith (manyClients n)).raw = .ok (stateWith (manyClients n)) :=
  Model.validateState_raw (stateWith_ok (scanned_many List.nodup_range
    (fun i hi => by have := List.mem_range.1 hi; omega) [] fun _ _ => List.not_mem_nil))

/-- Three phones. -/
theorem exported_clients :
    Exported bareEnv clientJson (stateWith (manyClients 3)).raw barePanel true 1700000000000 := by
  have hdefault := defaultBytes_eq
  have hclients : ((manyClients 3).map clientBytes).sum ≤ 500 := by decide +kernel
  have hbytes {raw : RawState} (h : raw.clients = .value (manyClients 3)) :
      stateBytes raw ≤ 262144 := by
    simp only [stateBytes, h, Field.value?, Option.getD_some]
    omega
  have hfits : clientJson.stateFits (stateWith (manyClients 3)).raw = true := by
    have h := @hbytes (stateWith (manyClients 3)).raw rfl
    simpa [clientJson] using h
  have hlisted : Listed (stateWith (manyClients 3)).raw := by
    unfold Listed
    decide
  exact (exported_iff bareEnv clientJson clientSizes (stateWith (manyClients 3)).raw
    (stateWith (manyClients 3)) barePanel true 1700000000000 hfits (many_valid (by decide))
    (by decide) (by decide)).2
    ⟨hlisted, @hbytes (setAccess (stateWith (manyClients 3)) barePanel.access).raw rfl,
      rfl, by decide⟩

/-- Texts that fit, and members that lie flat. -/
def flatJson : Json := ⟨fun _ => true, fun _ => true⟩

/-- More than 512 clients, or a time beyond the exact numbers, have no document. -/
theorem not_exported :
    (¬ ∀ (env : Env) (js : Json) (raw : RawState) (state : State) (panel : Panel) (enabled : Bool)
      (now : ℤ), js.stateFits raw = true → Model.validateState env raw = .ok state →
      panelFits panel = true → now = 1700000000000 → Exported env js raw panel enabled now) ∧
    ¬ ∀ (env : Env) (js : Json) (raw : RawState) (state : State) (panel : Panel) (enabled : Bool)
      (now : ℤ), js.stateFits raw = true → Model.validateState env raw = .ok state →
      panelFits panel = true → 0 ≤ now → state.clients = [] →
        Exported env js raw panel enabled now := by
  constructor
  · intro hall
    obtain ⟨n, hn, hle⟩ : ∃ n, n = 513 ∧ n ≤ 4096 := ⟨513, rfl, by decide⟩
    obtain ⟨checked, hexport, -⟩ := hall bareEnv flatJson (stateWith (manyClients n)).raw
      (stateWith (manyClients n)) barePanel true 1700000000000 rfl (many_valid hle) (by decide) rfl
    simp only [exportState, bind_eq_ok, checkState_eq_ok] at hexport
    obtain ⟨-, ⟨-, ⟨-, -, -, -, hclients⟩, -⟩, -⟩ := hexport
    have hlen : (manyClients n).length ≤ 512 := by
      have hb : (Field.value (manyClients n)).value?.any (fun l => decide (l.length ≤ 512)) =
          true :=
        hclients
      simpa using hb
    rw [manyClients, List.length_map, List.length_range] at hlen
    omega
  · intro hall
    obtain ⟨checked, hexport, -⟩ := hall bareEnv flatJson Model.defaults.raw Model.defaults
      barePanel true 9007199254740992 rfl defaults_valid (by decide) (by decide) rfl
    have hnone : (exportState bareEnv flatJson Model.defaults.raw barePanel true
        9007199254740992).toOption = none := by decide
    rw [hexport] at hnone
    cases hnone

end Foxhole.Backup
