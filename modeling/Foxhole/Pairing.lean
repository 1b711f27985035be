import Foxhole.State

/-! The pairing record: which phones hold a credential. -/
namespace Foxhole.Pairing
open Check Text

/-- The application a phone has reported. -/
structure Metadata where
  client : Option Text := none
  clientVersion : Option Text := none
deriving DecidableEq

/-- A paired phone; only the digest of its credential is kept. -/
structure Device where
  id : Text
  hash : Text
  name : Text
  created : ℤ
  metadata : Metadata := {}
deriving DecidableEq

structure Session where
  id : Text
  verifier : Text
deriving DecidableEq

def maxDevices : ℕ := 10
def legacyMaxDevices : ℕ := 16

def validId (id : Text) : Bool := (tagged "pair".toList 32).accepts id

def validName (name : Text) : Bool :=
  0 < name.length && name.length ≤ 128 && !hasCntrl name

/-- `0|[1-9][0-9]{0,5}` -/
def versionNumber : Regex Char :=
  .alt (.lit ['0']) (.seq (.cls fun c => '1' ≤ c && c ≤ '9') (.upTo 5 (.cls isDigit)))

/-- `([sign][0-9A-Za-z]+([.-][0-9A-Za-z]+)*)?` -/
def versionSuffix (sign : Char) : Regex Char :=
  let word := Regex.plus (.cls isAlnum)
  .opt (.seq (.lit [sign]) (.seq word (.star (.seq (.cls fun c => c = '.' || c = '-') word))))

/-- A semantic version. -/
def versionShape : Regex Char :=
  .seq versionNumber (.seq (.lit ['.']) (.seq versionNumber (.seq (.lit ['.'])
    (.seq versionNumber (.seq (versionSuffix '-') (versionSuffix '+'))))))

def clientMetadata (client version : Field Text) : Metadata :=
  if client = .value "guard".toList ∨ client = .value "vpn".toList then
    { client := client.value?
      clientVersion := version.value?.filter fun version =>
        version.length ≤ 64 && versionShape.accepts version }
  else {}

/-- The members that are there replace the old ones. -/
def Metadata.merge (old new : Metadata) : Metadata where
  client := new.client.or old.client
  clientVersion := new.clientVersion.or old.clientVersion

/-- What `checked` requires of one device. -/
def validDevice (device : Device) : Bool :=
  validId device.id && validName device.name && (hexOf 64).accepts device.hash && 0 ≤ device.created

/-- The record as `checked` returns it. -/
@[ext] structure Record where
  devices : List Device
  length_le : devices.length ≤ legacyMaxDevices
  valid : ∀ device ∈ devices, validDevice device = true
  nodup : (devices.map Device.id).Nodup
deriving DecidableEq

variable {record : Record} {session : Session} {id credential name : Text} {created : ℤ}

/-- Read a record from its devices, or fail. -/
def checked (devices : List Device) : Except Err Record :=
  if h : devices.length ≤ legacyMaxDevices ∧ (∀ device ∈ devices, validDevice device = true) ∧
      (devices.map Device.id).Nodup then
    .ok ⟨devices, h.1, h.2.1, h.2.2⟩
  else .error .storageError

def defaults : Record := ⟨[], by decide, by simp, by simp⟩

def sessionCurrent (record : Record) (session : Session) : Bool :=
  record.devices.any fun device => device.id = session.id && device.hash = session.verifier

def verifier (env : Env) (credential : Text) : Except Err Text := do
  require ((hexOf 64).accepts credential = true) .invalidPairing
  return env.sha256 credential

/-- A device with the metadata laid over what it has reported before. -/
def Device.report (device : Device) (metadata : Metadata) : Device :=
  { device with metadata := device.metadata.merge metadata }

/-- The devices with the one of `id` reporting. -/
def report (devices : List Device) (id : Text) (metadata : Metadata) : List Device :=
  devices.map fun device => if device.id = id then device.report metadata else device

theorem report_ids (devices : List Device) (metadata : Metadata) :
    (report devices id metadata).map Device.id = devices.map Device.id := by
  rw [report, List.map_map]
  refine List.map_congr_left fun device _ => ?_
  simp only [Function.comp_apply]
  split <;> rfl

theorem mem_report {devices : List Device} {metadata : Metadata} {device : Device}
    (h : device ∈ report devices id metadata) : ∃ old ∈ devices,
      old.id = device.id ∧ old.hash = device.hash ∧ old.name = device.name ∧
      old.created = device.created := by
  obtain ⟨old, ho, rfl⟩ := List.mem_map.1 h
  refine ⟨old, ho, ?_⟩
  split <;> exact ⟨rfl, rfl, rfl, rfl⟩

def updateMetadata (record : Record) (id : Text) (client version : Field Text) : Record where
  devices := report record.devices id (clientMetadata client version)
  length_le := by simpa [report] using record.length_le
  valid := fun device h => by
    obtain ⟨old, ho, hid, hhash, hname, hcreated⟩ := mem_report h
    simpa [validDevice, hid, hhash, hname, hcreated] using record.valid old ho
  nodup := by
    rw [report_ids]
    exact record.nodup

/-- Add a device, or accept the credential of the one that is there. -/
def register (env : Env) (record : Record) (id credential name : Text) (created : ℤ)
    (client version : Field Text) : Except Err Record := do
  let hash ← verifier env credential
  require (validId id = true ∧ validName name = true ∧ 0 ≤ created) .invalidPairing
  match record.devices.find? (·.id = id) with
  | some device => do
    require (device.hash = hash) .pairingConflict
    return updateMetadata record id client version
  | none => do
    require (record.devices.length < maxDevices) .pairingLimit
    checked (record.devices ++ [⟨id, hash, name, created, clientMetadata client version⟩])

/-- The session a credential opens. -/
def authenticate (env : Env) (record : Record) (id credential : Text) : Except Err Session := do
  require (validId id = true) .unauthorized
  require ((hexOf 64).accepts credential = true) .unauthorized
  let hash := env.sha256 credential
  require (record.devices.any (fun device => device.id = id && device.hash = hash) = true)
    .unauthorized
  return ⟨id, hash⟩

/-- `revoke` on a well-formed identifier: the device with it is dropped. -/
def drop (record : Record) (id : Text) : Record where
  devices := record.devices.filter (·.id ≠ id)
  length_le := (List.length_filter_le _ _).trans record.length_le
  valid := fun device h => record.valid device (List.mem_of_mem_filter h)
  nodup := record.nodup.sublist (List.Sublist.map _ List.filter_sublist)

def revoke (record : Record) (id : Text) : Except Err Record := do
  require (validId id = true) .invalidPairing
  return drop record id

theorem sessionCurrent_iff : sessionCurrent record session = true ↔
    ∃ device ∈ record.devices, device.id = session.id ∧ device.hash = session.verifier := by
  simp [sessionCurrent]

theorem checked_ok {devices : List Device} (h : checked devices = .ok record) :
    record.devices = devices := by
  unfold checked at h
  split at h
  · cases h; rfl
  · cases h

theorem authenticate_ok (h : authenticate env record id credential = .ok session) :
    session.id = id ∧ sessionCurrent record session = true := by
  simp only [authenticate, bind_eq_ok, require_eq_ok, pure_eq_ok] at h
  obtain ⟨-, -, -, -, -, hany, rfl⟩ := h
  exact ⟨rfl, hany⟩

/-- Reporting metadata leaves the credentials as they are. -/
theorem sessionCurrent_updateMetadata {client version : Field Text} :
    sessionCurrent (updateMetadata record id client version) session =
      sessionCurrent record session := by
  simp only [sessionCurrent, updateMetadata, report, List.any_map]
  congr 1
  funext device
  simp only [Function.comp_apply]
  split <;> rfl

/-- Registering keeps the sessions that are current. -/
theorem sessionCurrent_register {record' : Record} {client version : Field Text}
    (h : register env record id credential name created client version = .ok record')
    (hs : sessionCurrent record session = true) : sessionCurrent record' session = true := by
  simp only [register, bind_eq_ok] at h
  obtain ⟨hash, -, -, -, h⟩ := h
  split at h
  · simp only [bind_eq_ok, pure_eq_ok] at h
    obtain ⟨-, -, rfl⟩ := h
    rwa [sessionCurrent_updateMetadata]
  · simp only [bind_eq_ok] at h
    obtain ⟨-, -, h⟩ := h
    rw [sessionCurrent, checked_ok h, List.any_append]
    exact Bool.or_eq_true_iff.2 (Or.inl hs)

/-- Revoking another pairing keeps the session. -/
theorem sessionCurrent_drop_ne (h : session.id ≠ id) :
    sessionCurrent (drop record id) session = sessionCurrent record session := by
  simp only [sessionCurrent, drop, List.any_filter]
  congr 1
  funext device
  by_cases hd : device.id = session.id
  · simp [hd, h]
  · simp [hd]

end Foxhole.Pairing
