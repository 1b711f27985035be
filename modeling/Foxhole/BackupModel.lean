import Foxhole.StateInvariant

/-! The documents of backup-model.uc: export, validation, and the candidate a restore writes. -/
namespace Foxhole.Backup
open Check Text

/-- The panel options of /etc/config/foxhole; a missing one is not set. -/
structure Panel where
  mode : Field Text := .missing
  telemetryInterval : Field Text := .missing
  standalone : Field Text := .missing
  lanDevices : Field (List Text) := .missing
  mobileDevices : Field (List Text) := .missing
  dnsViaTunnel : Field Text := .missing
  preserveLoopbackSocks : Field Text := .missing
  tunMtu : Field Text := .missing
deriving DecidableEq

structure Document where
  schema : Field ℤ
  kind : Field Text
  createdAtUnixMs : Field ℤ
  state : RawState
  panel : Panel
  /-- `autoUpdate.enabled` -/
  enabled : Field Bool
deriving DecidableEq

/-- A document as `validate_document` returns it. -/
structure Checked where
  createdAtUnixMs : ℤ
  state : State
  panel : Panel
  enabled : Bool
deriving DecidableEq

/-- What depends on the JSON text itself and not on the members that are read. -/
structure Json where
  /-- the member list of a state, and that it prints in at most 262144 bytes -/
  stateFits : RawState → Bool
  /-- `check_tree`, the member lists of a document, and that it prints in `maximum_bytes` -/
  documentFits : Document → Bool

def kind : Text := "foxhole-settings-backup-v1".toList

/-- A list member of a state, of at most 512 elements. -/
def bounded {α : Type} (field : Field (List α)) : Bool := field.value?.any (·.length ≤ 512)

/-- `state(value)`: whatever is wrong is `backup_invalid`. -/
def checkState (env : Env) (js : Json) (raw : RawState) : Except Err State := do
  require (js.stateFits raw = true) .backupInvalid
  require (bounded raw.countries ∧ bounded raw.devices ∧ bounded raw.sites ∧ bounded raw.servers ∧
    bounded raw.clients) .backupInvalid
  match Model.validateState env raw with
  | .ok state => return state
  | .error _ => throw .backupInvalid

/-- An option that is null, or passes. -/
def optional {α : Type} (field : Field α) (ok : α → Bool) : Bool :=
  match field with
  | .missing => true
  | .invalid => false
  | .value a => ok a

/-- `^[A-Za-z0-9_.:-]{1,32}$` -/
def isDevice (name : Text) : Bool :=
  1 ≤ name.length && name.length ≤ 32 && name.all fun c => isAlnum c || c ∈ ['_', '.', ':', '-']

/-- `^[0-9]{1,4}$`, and the number it reads as. -/
def number (value : Text) : Option ℕ :=
  if 1 ≤ value.length ∧ value.length ≤ 4 ∧ value.all isDigit = true then
    some (Address.decimalValue value)
  else none

def isDevices (limit : ℕ) (names : List Text) : Bool :=
  names.length ≤ limit && names.all isDevice && decide names.Nodup

def isSwitch (value : Text) : Bool := value = ['0'] || value = ['1']

def panelFits (panel : Panel) : Bool :=
  optional panel.mode (fun mode => mode = "runtime".toList || mode = "off".toList) &&
  optional panel.telemetryInterval (fun t => (number t).any fun n => 1 ≤ n && n ≤ 3600) &&
  optional panel.standalone isSwitch &&
  optional panel.lanDevices (isDevices 32) &&
  optional panel.mobileDevices (fun names => isDevices 8 names && names ≠ []) &&
  optional panel.dnsViaTunnel isSwitch &&
  optional panel.preserveLoopbackSocks isSwitch &&
  optional panel.tunMtu (fun t => (number t).any fun n => 1280 ≤ n && n ≤ 1500)

/-- `panel.standalone != '0'` -/
def Panel.access (panel : Panel) : Bool := panel.standalone ≠ .value ['0']

def validateDocument (env : Env) (js : Json) (document : Document) : Except Err Checked := do
  require (js.documentFits document = true) .backupInvalid
  require (document.schema = .value 1 ∧ document.kind = .value kind) .backupInvalid
  match document.createdAtUnixMs, document.enabled with
  | .value created, .value enabled => do
    require (0 ≤ created ∧ created ≤ 9007199254740991) .backupInvalid
    let state ← checkState env js document.state
    require (panelFits document.panel = true) .backupInvalid
    require (state.settings.standaloneAccess = document.panel.access) .backupInvalid
    return ⟨created, state, document.panel, enabled⟩
  | _, _ => throw .backupInvalid

/-- The document of a checked backup. -/
def Checked.document (checked : Checked) : Document where
  schema := .value 1
  kind := .value kind
  createdAtUnixMs := .value checked.createdAtUnixMs
  state := checked.state.raw
  panel := checked.panel
  enabled := .value checked.enabled

def setAccess (state : State) (access : Bool) : State :=
  { state with settings := { state.settings with standaloneAccess := access } }

def exportDocument (env : Env) (js : Json) (current : State) (panel : Panel) (enabled : Bool)
    (now : ℤ) : Except Err Checked := do
  let state ← checkState env js current.raw
  validateDocument env js (Checked.document ⟨now, setAccess state panel.access, panel, enabled⟩)

/-- A bound record is there exactly once on both sides, and is the same. Fingerprints stand for
what they are taken of. -/
def bound {α : Type} [DecidableEq α] (live incoming : List α) : Bool :=
  live.length = 1 && live = incoming

def boundClient (restored current : State) (phone : Mobile.Phone) : Bool :=
  match phone.remoteClientId with
  | none => true
  | some id =>
    let incoming := restored.clients.filter (·.key = id)
    if phone.remoteRevoked then incoming = []
    else bound (current.clients.filter (·.key = id)) incoming

def boundDevice (restored current : State) (phone : Mobile.Phone) : Bool :=
  match phone.lanDeviceId with
  | none => true
  | some id => bound (current.devices.filter (·.id = id)) (restored.devices.filter (·.id = id))

/-- What a restore may not change behind the phones of the journal. -/
def boundRecords (env : Env) (restored current : State) (phones : List Mobile.Phone) :
    Except Err Unit := do
  let phones ← Mobile.journal env phones
  require (∀ phone ∈ phones, boundClient restored current phone = true ∧
    boundDevice restored current phone = true) .backupPairingConflict

/-- What a restore of the document writes, one revision after the live state. -/
def candidate (env : Env) (js : Json) (document : Document) (current : State)
    (phones : List Mobile.Phone) : Except Err Checked := do
  let value ← validateDocument env js document
  let live ← checkState env js current.raw
  require (live.revision < 0x7ffffffe) .revisionConflict
  boundRecords env value.state live phones
  let state := { value.state with revision := live.revision + 1 }
  require (js.stateFits state.raw = true) .backupInvalid
  return { value with state }

/-- What `without_stop` takes the fingerprint of. -/
def withoutStop (state : State) : State := { state with revision := 0, activeServerId := none }

variable {env : Env} {js : Json} {raw : RawState} {state current : State} {document : Document}
  {checked value : Checked} {phones : List Mobile.Phone}

theorem checkState_ok (h : checkState env js raw = .ok state) :
    Model.validateState env raw = .ok state := by
  simp only [checkState, bind_eq_ok] at h
  obtain ⟨-, -, -, -, h⟩ := h
  split at h
  · rw [‹Model.validateState env raw = _›, pure_eq_ok.1 h]
  · simp at h

/-- Checking a state that satisfies the invariant gives it back. -/
theorem checkState_raw (hok : state.Ok env) (h : checkState env js state.raw = .ok current) :
    current = state := by
  have hv := checkState_ok h
  rw [Model.validateState_raw hok] at hv
  exact (Except.ok.inj hv).symm

theorem validateDocument_ok (h : validateDocument env js document = .ok checked) :
    Model.validateState env document.state = .ok checked.state ∧
      checked.state.settings.standaloneAccess = checked.panel.access := by
  simp only [validateDocument, bind_eq_ok, require_eq_ok] at h
  obtain ⟨-, -, -, -, h⟩ := h
  split at h
  · simp only [bind_eq_ok, require_eq_ok, pure_eq_ok] at h
    obtain ⟨-, -, state, hs, -, -, -, ha, rfl⟩ := h
    exact ⟨checkState_ok hs, ha⟩
  · simp at h

/-- What a candidate is: the checked document, one revision on. -/
theorem candidate_ok (hok : current.Ok env)
    (h : candidate env js document current phones = .ok value) :
    ∃ checked, validateDocument env js document = .ok checked ∧
      boundRecords env checked.state current phones = .ok () ∧
      value =
        { checked with state := { checked.state with revision := current.revision + 1 } } := by
  simp only [candidate, bind_eq_ok, pure_eq_ok] at h
  obtain ⟨checked, hc, live, hl, -, -, ⟨⟩, hb, -, -, rfl⟩ := h
  obtain rfl := checkState_raw hok hl
  exact ⟨checked, hc, hb, rfl⟩

/-- The candidate's state satisfies the invariant, whatever the document came from. -/
theorem candidate_state_ok (hok : current.Ok env)
    (h : candidate env js document current phones = .ok value) : value.state.Ok env := by
  obtain ⟨checked, hc, -, rfl⟩ := candidate_ok hok h
  have hs := Model.validateState_ok (validateDocument_ok hc).1
  exact ⟨hs.policy, hs.servers, hs.active, hs.clients⟩

theorem candidate_revision (hok : current.Ok env)
    (h : candidate env js document current phones = .ok value) :
    value.state.revision = current.revision + 1 := by
  obtain ⟨checked, -, -, rfl⟩ := candidate_ok hok h
  rfl

theorem candidate_access (hok : current.Ok env)
    (h : candidate env js document current phones = .ok value) :
    value.state.settings.standaloneAccess = value.panel.access := by
  obtain ⟨checked, hc, -, rfl⟩ := candidate_ok hok h
  exact (validateDocument_ok hc).2

/-- The clients of a candidate are those of the document. -/
theorem candidate_clients (hok : current.Ok env)
    (h : candidate env js document current phones = .ok value) :
    document.state.clients = .value value.state.clients := by
  obtain ⟨checked, hc, -, rfl⟩ := candidate_ok hok h
  exact (Rpc.validateState_lists (validateDocument_ok hc).1).2

/-- A tombstone in the journal keeps its client out of every candidate. -/
theorem candidate_revoked (hok : current.Ok env)
    (h : candidate env js document current phones = .ok value) {phone : Mobile.Phone} {id : Text}
    (hp : phone ∈ phones) (hid : phone.remoteClientId = some id) (hr : phone.remoteRevoked = true) :
    ∀ client ∈ value.state.clients, client.key ≠ id := by
  obtain ⟨checked, -, hb, rfl⟩ := candidate_ok hok h
  simp only [boundRecords, bind_eq_ok, require_eq_ok] at hb
  obtain ⟨records, hrec, hb⟩ := hb
  simp only [Mobile.journal, bind_eq_ok, pure_eq_ok] at hrec
  obtain ⟨-, -, -, -, -, -, rfl⟩ := hrec
  have hclient := (hb phone hp).1
  simp only [boundClient, hid, hr, if_true, decide_eq_true_eq, List.filter_eq_nil_iff] at hclient
  exact fun client hc => by simpa using hclient client hc

end Foxhole.Backup
