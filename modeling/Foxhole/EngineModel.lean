import Foxhole.Lib.Check
import Foxhole.Ucode
import Mathlib.Data.List.Sort

/-! The engine packages of engine-model.uc: catalog entries, the registry of installed slots, the
plan of a change and its commit. -/
namespace Foxhole.Engine
open Check Text

inductive Storage where
  | flash | ram
deriving DecidableEq

inductive Wish where
  | auto | flash | ram
deriving DecidableEq

inductive Operation where
  | add | update | remove
deriving DecidableEq

inductive Impact where
  | keepActive | reconnectRequired
deriving DecidableEq

inductive Warning where
  | ramDownloadRequired | oldSlotRetained | reconnectRequired
deriving DecidableEq

/-- A package of the catalog or a slot of the registry. An entry with a missing, an unknown or an
ill-typed member is `invalid` where entries are read. -/
structure Entry where
  id : Text
  storage : Storage
  version : Text
  architecture : Text
  binarySha256 : Text
  executableSha256 : Text
  producerSha256 : Text
  capabilitiesSha256 : Text
  legalProvenanceSha256 : Text
  manifestSha256 : Text
  sourceCommit : Text
  binaryBytes : ℤ
  archiveBytes : ℤ
  indexBytes : ℤ
  installedBytes : ℤ
  runtimeMemoryBytes : ℤ
  reserveBytes : ℤ
  packageName : Text
  packageVersion : Text
  packageSha256 : Text
  indexSha256 : Text
  packageUrl : Text
  indexUrl : Text
deriving DecidableEq

structure Selected where
  id : Text
  slotId : Text
deriving DecidableEq

structure Registry where
  revision : ℤ
  slots : List Entry
  selected : List Selected
deriving DecidableEq

structure RawRegistry where
  unknown : Bool := false
  schema : Field ℤ
  revision : Field ℤ
  slots : Field (List (Field Entry))
  selected : Field (List (Field Selected))
deriving DecidableEq

structure RawCatalog where
  unknown : Bool := false
  schema : Field ℤ
  entries : Field (List (Field Entry))
deriving DecidableEq

def IDS : List Text :=
  ["vless", "vmess", "hysteria2", "tuic", "trojan", "shadowsocks", "wireguard", "naive", "anytls",
    "shadowtls", "socks", "http"].map String.toList

def ARCHES : List Text := ["x86_64", "aarch64_generic", "aarch64_cortex-a53"].map String.toList

def BASE : Text :=
  "https://github.com/foxhole-team/foxhole-openwrt-client/releases/download/".toList

/-- `number(value, maximum)` -/
def number (value maximum : ℤ) : Prop := 0 ≤ value ∧ value ≤ maximum

instance (value maximum : ℤ) : Decidable (number value maximum) :=
  inferInstanceAs (Decidable (_ ∧ _))

def sha (value : Text) : Bool := (hexOf 64).accepts value

/-- `[0-9]+\.[0-9]+\.[0-9]+` -/
def dotted (part : Regex Char) : Regex Char :=
  .seq part (.seq (.lit ['.']) (.seq part (.seq (.lit ['.']) part)))

/-- `^[0-9]+\.[0-9]+\.[0-9]+([+-][a-zA-Z0-9.-]+)?$` -/
def versionShape : Regex Char :=
  .seq (dotted (.plus (.cls isDigit)))
    (.alt .eps (.seq (.cls fun c => c = '+' || c = '-')
      (.plus (.cls fun c => isAlnum c || c = '.' || c = '-'))))

/-- `^[a-zA-Z0-9][a-zA-Z0-9_.~+-]{0,159}$` -/
def packageVersionShape : Regex Char :=
  .seq (.cls isAlnum)
    (.upTo 159 (.cls fun c => isAlnum c || c ∈ ['_', '.', '~', '+', '-']))

/-- `^(v[0-9]{1,6}\.[0-9]{1,6}\.[0-9]{1,6})\/engines\.adb$` -/
def releaseShape : Regex Char :=
  .seq (.lit ['v']) (.seq (dotted (.seq (.cls isDigit) (.upTo 5 (.cls isDigit))))
    (.lit "/engines.adb".toList))

def Storage.lower : Storage → Text
  | flash => "flash".toList
  | ram => "ram".toList

/-- The directory of the release that an index URL names, with its slash. -/
def releaseBase (indexUrl : Text) : Option Text :=
  if indexUrl.length ≤ 1024 ∧ BASE <+: indexUrl ∧
      releaseShape.accepts (indexUrl.drop BASE.length) = true then
    some (indexUrl.take (indexUrl.length - "engines.adb".length))
  else none

def Entry.package (value : Entry) : Text :=
  "foxcore-engine-".toList ++ value.id ++ ['-'] ++ value.storage.lower ++ ['-'] ++
    value.manifestSha256

/-- The sizes an entry may state. -/
def Entry.sized (value : Entry) : Prop :=
  (∀ n ∈ [value.binaryBytes, value.archiveBytes, value.indexBytes, value.installedBytes,
    value.runtimeMemoryBytes, value.reserveBytes], number n 2147483648 ∧ n ≠ 0) ∧
  value.binaryBytes ≤ 67108864 ∧ value.archiveBytes ≤ 134217728 ∧ value.indexBytes ≤ 8388608 ∧
  value.installedBytes ≤ 536870912 ∧ 16777216 ≤ value.reserveBytes

def Entry.digests (value : Entry) : Prop :=
  ∀ d ∈ [value.binarySha256, value.executableSha256, value.producerSha256,
    value.capabilitiesSha256, value.legalProvenanceSha256, value.manifestSha256,
    value.packageSha256, value.indexSha256], sha d = true

/-- The package and its index lie in one release of the router. -/
def Entry.released (value : Entry) : Prop :=
  value.packageName = value.package ∧
  ∃ base ∈ releaseBase value.indexUrl,
    value.packageUrl =
      base ++ value.package ++ ['-'] ++ value.packageVersion ++ ".apk".toList ∧
    value.indexUrl = base ++ "engines.adb".toList

/-- What `entry` checks. -/
def Entry.Ok (value : Entry) : Prop :=
  value.id ∈ IDS ∧ value.architecture ∈ ARCHES ∧ versionShape.accepts value.version = true ∧
  packageVersionShape.accepts value.packageVersion = true ∧
  (hexOf 40).accepts value.sourceCommit = true ∧ value.digests ∧ value.sized ∧ value.released ∧
  (value.storage = .flash → value.executableSha256 = value.binarySha256)

instance (value : Entry) : Decidable value.Ok := by
  unfold Entry.Ok Entry.digests Entry.sized Entry.released
  infer_instance

def entry (value : Field Entry) : Except Err Entry :=
  match value with
  | .value value => do
    require value.Ok .enginePackageVerificationFailed
    return value
  | _ => throw .enginePackageVerificationFailed

def slotId (value : Entry) : Text :=
  value.id ++ ['-'] ++ value.storage.lower ++ ['-'] ++ value.manifestSha256

def defaults : Registry where
  revision := 0
  slots := []
  selected := []

/-- The value of a member that has to be there. -/
def member {α : Type} (field : Field α) : Except Err α :=
  match field with
  | .value a => .ok a
  | _ => throw .enginePackageVerificationFailed

def catalogKey (item : Entry) : Text × Storage × Text := (item.id, item.storage, item.architecture)

def catalog (value : RawCatalog) : Except Err (List Entry) := do
  require (value.unknown = false ∧ value.schema = .value 1) .enginePackageVerificationFailed
  let entries ← member value.entries
  require (entries.length ≤ 72) .enginePackageVerificationFailed
  scan (fun item => [catalogKey item]) (fun seen raw => do
    let item ← entry raw
    require (catalogKey item ∉ seen) .enginePackageVerificationFailed
    return item) [] entries

def checkSlot (seen : List Text) (raw : Field Entry) : Except Err Entry := do
  let item ← entry raw
  require (slotId item ∉ seen) .enginePackageVerificationFailed
  return item

def checkSelected (slots : List Entry) (names : List Text) (raw : Field Selected) :
    Except Err Selected := do
  let item ← member raw
  require (item.id ∈ IDS ∧ item.id ∉ names) .enginePackageVerificationFailed
  require ((slots.find? fun slot => slotId slot = item.slotId).map (·.id) = some item.id)
    .enginePackageVerificationFailed
  return item

def registry (value : RawRegistry) : Except Err Registry := do
  require (value.unknown = false ∧ value.schema = .value 1) .enginePackageVerificationFailed
  let revision ← member value.revision
  require (number revision 0x7fffffff) .enginePackageVerificationFailed
  let slots ← member value.slots
  let selected ← member value.selected
  require (slots.length ≤ 48 ∧ selected.length ≤ 12) .enginePackageVerificationFailed
  let slots ← scan (fun item => [slotId item]) checkSlot [] slots
  let selected ← scan (fun item => [item.id]) (checkSelected slots) [] selected
  return ⟨revision, slots, selected⟩

/-- The JSON form of a registry that is passed on as a value. -/
def Registry.raw (value : Registry) : RawRegistry where
  schema := .value 1
  revision := .value value.revision
  slots := .value (value.slots.map .value)
  selected := .value (value.selected.map .value)

def selected (value : RawRegistry) (id : Text) : Except Err (Option Entry) := do
  let checked ← registry value
  let key := (checked.selected.find? fun row => row.id = id).map (·.slotId)
  return checked.slots.find? fun row => some (slotId row) = key

structure Context where
  routerId : Text
  architecture : Text
  bootId : Text
  worldSha256 : Text
  catalogSha256 : Text
  activeGeneration : Option Text
  activeConfigSha256 : Option Text
  stopIntent : ℤ
  activeEngineId : Option Text
  activeProfileId : Option Text
  legacyProtocols : List Text
  flashAvailableBytes : ℤ
  ramAvailableBytes : ℤ
deriving DecidableEq

structure Binding where
  routerId : Text
  bootId : Text
  worldSha256 : Text
  catalogSha256 : Text
  activeGeneration : Option Text
  activeConfigSha256 : Option Text
  stopIntent : ℤ
  activeEngineId : Option Text
  activeProfileId : Option Text
deriving DecidableEq

def Context.binding (context : Context) : Binding where
  routerId := context.routerId
  bootId := context.bootId
  worldSha256 := context.worldSha256
  catalogSha256 := context.catalogSha256
  activeGeneration := context.activeGeneration
  activeConfigSha256 := context.activeConfigSha256
  stopIntent := context.stopIntent
  activeEngineId := context.activeEngineId
  activeProfileId := context.activeProfileId

structure Request where
  unknown : Bool := false
  operation : Option Operation
  engineIds : Field (List (Field Text))
  storage : Option Wish
  expectedRevision : Field ℤ
  catalogSha256 : Field Text
deriving DecidableEq

structure Change where
  id : Text
  fromVersion : Option Text
  toVersion : Option Text
  storage : Option Storage
  archiveBytes : ℤ
  installedBytes : ℤ
deriving DecidableEq

structure Budget where
  downloadBytes : ℤ
  stagingBytes : ℤ
  flashRequiredBytes : ℤ
  ramRequiredBytes : ℤ
  flashAvailableBytes : ℤ
  ramAvailableBytes : ℤ
  reservedBytes : ℤ
deriving DecidableEq

/-- A plan, without the members that are the same in every plan. -/
structure Plan where
  routerId : Text
  planId : Text
  revision : ℤ
  bootId : Text
  createdAtUptimeMs : ℤ
  expiresAtUptimeMs : ℤ
  operation : Operation
  engineIds : List Text
  changes : List Change
  budget : Budget
  impact : Impact
  warnings : List Warning
  owner : Text
  binding : Binding
  artifacts : List Entry
  removals : List Text
  planSha256 : Option Text := none
deriving DecidableEq

/-- The running sums of `plan`. -/
structure Draft where
  changes : List Change := []
  artifacts : List Entry := []
  removals : List Text := []
  impact : Impact := .keepActive
  warnings : List Warning := []
  download : ℤ := 0
  staging : ℤ := 0
  flash : ℤ := 0
  ram : ℤ := 0
  volatile : ℤ := 0
  reserve : ℤ := 16777216
deriving DecidableEq

/-- Push a warning once. -/
def warn (warnings : List Warning) (warning : Warning) (when : Bool) : List Warning :=
  if when && warning ∉ warnings then warnings ++ [warning] else warnings

def change (id : Text) (old next : Option Entry) : Change where
  id := id
  fromVersion := old.map (·.version)
  toVersion := next.map (·.version)
  storage := (next.or old).map (·.storage)
  archiveBytes := (next.map (·.archiveBytes)).getD 0
  installedBytes := (next.map (·.installedBytes)).getD 0

def ids (value : Field (List (Field Text))) : Except Err (List Text) :=
  match value with
  | .value value => do
    require (value ≠ [] ∧ value.length ≤ 12) .engineUnknownProtocol
    let value ← scan (fun id => [id]) (fun seen raw =>
      match raw with
      | .value id => do
        require (id ∈ IDS ∧ id ∉ seen) .engineUnknownProtocol
        return id
      | _ => throw .engineUnknownProtocol) [] value
    return value.insertionSort (· ≤ ·)
  | _ => throw .engineUnknownProtocol

/-- The package for one engine: the wished storage, or flash while it fits and memory else. -/
def choose (wish : Wish) (context : Context) (draft : Draft) (candidates : List Entry) :
    Option Entry :=
  let of := fun storage => candidates.find? fun row => row.storage = storage
  match wish with
  | .flash => of .flash
  | .ram => of .ram
  | .auto =>
    match of .flash with
    | some fixed =>
      if draft.flash + fixed.installedBytes + draft.reserve ≤ context.flashAvailableBytes then
        some fixed
      else of .ram
    | none => of .ram

def Draft.remove (draft : Draft) (id : Text) (old : Option Entry) : Draft :=
  { draft with
    removals := draft.removals ++ [id]
    changes := draft.changes ++ [change id old none] }

def Draft.install (draft : Draft) (context : Context) (id : Text) (old : Option Entry)
    (next : Entry) : Draft :=
  { draft with
    artifacts := draft.artifacts ++ [next]
    download := draft.download + (next.archiveBytes + next.indexBytes)
    staging := draft.staging + (next.archiveBytes * 3 + next.indexBytes * 3)
    flash := draft.flash + next.installedBytes
    ram := max draft.ram next.runtimeMemoryBytes
    volatile := draft.volatile + (if next.storage = .ram then next.binaryBytes else 0)
    reserve := max draft.reserve next.reserveBytes
    warnings := warn (warn draft.warnings .ramDownloadRequired (next.storage = .ram))
      .oldSlotRetained (old.isSome || id ∈ context.legacyProtocols)
    impact := if context.activeEngineId = some id then .reconnectRequired else draft.impact
    changes := draft.changes ++ [change id old (some next)] }

/-- One round of the loop of `plan`. -/
def planStep (operation : Operation) (wish : Wish) (available : List Entry) (installed : Registry)
    (context : Context) (draft : Draft) (id : Text) : Except Err Draft := do
  let old ← selected installed.raw id
  if operation = .remove then do
    require (old.isSome = true) .engineInvalidRequest
    require (context.activeEngineId ≠ some id) .engineInUse
    return draft.remove id old
  else do
    require (¬ (operation = .add ∧ old.isSome = true ∨
      operation = .update ∧ old = none ∧ id ∉ context.legacyProtocols)) .engineInvalidRequest
    let same := available.filter fun row => row.id = id
    require (same ≠ []) .engineNotReleased
    let candidates := same.filter fun row => row.architecture = context.architecture
    require (candidates ≠ []) .engineUnsupportedTarget
    match choose wish context draft candidates with
    | none => throw .engineUnsupportedTarget
    | some next => do
      require (old.all fun old => ¬ (old.binarySha256 = next.binarySha256 ∧
        old.storage = next.storage ∧ old.packageVersion = next.packageVersion))
        .engineInvalidRequest
      return draft.install context id old next

def resources (budget : Budget) (context : Context) : Except Err Unit :=
  require (number context.flashAvailableBytes 9007199254740991 ∧
    number context.ramAvailableBytes 9007199254740991 ∧
    budget.flashRequiredBytes ≤ context.flashAvailableBytes ∧
    budget.ramRequiredBytes ≤ context.ramAvailableBytes) .engineNoSpace

def Draft.budget (draft : Draft) (context : Context) : Budget where
  downloadBytes := draft.download
  stagingBytes := draft.staging
  flashRequiredBytes := draft.flash + draft.reserve
  ramRequiredBytes := draft.ram + draft.volatile + draft.staging + draft.reserve
  flashAvailableBytes := context.flashAvailableBytes
  ramAvailableBytes := context.ramAvailableBytes
  reservedBytes := draft.reserve

/-- `plan`; `fingerprint` is the digest of the printed plan. -/
def plan (fingerprint : Plan → Text) (request : Request) (rawCatalog : RawCatalog)
    (rawRegistry : RawRegistry) (context : Context) (owner nonce : Text) (now : ℤ) :
    Except Err Plan := do
  require (request.unknown = false) .engineInvalidRequest
  match request.operation, request.storage, request.expectedRevision with
  | some operation, some wish, .value expectedRevision => do
    require (number expectedRevision 0x7ffffffe ∧ sha owner = true ∧ sha nonce = true ∧
      number now 9007198954740991) .engineInvalidRequest
    let wanted ← ids request.engineIds
    let available ← catalog rawCatalog
    let installed ← registry rawRegistry
    require (installed.revision = expectedRevision ∧
      request.catalogSha256 = .value context.catalogSha256) .engineStalePlan
    let draft ← wanted.foldlM (planStep operation wish available installed context) {}
    let budget := draft.budget context
    resources budget context
    let value : Plan := {
      routerId := context.routerId
      planId := "engine-plan-".toList ++ nonce.take 32
      revision := installed.revision
      bootId := context.bootId
      createdAtUptimeMs := now
      expiresAtUptimeMs := now + 300000
      operation := operation
      engineIds := wanted
      changes := draft.changes
      budget := budget
      impact := draft.impact
      warnings := warn draft.warnings .reconnectRequired (draft.impact = .reconnectRequired)
      owner := owner
      binding := context.binding
      artifacts := draft.artifacts
      removals := draft.removals }
    return { value with planSha256 := some (fingerprint value) }
  | _, _, _ => throw .engineInvalidRequest

def Registry.remove (result : Registry) (id : Text) : Registry :=
  { result with
    selected := result.selected.filter fun row => row.id ≠ id
    slots := result.slots.filter fun row => row.id ≠ id }

def Registry.add (result : Registry) (item : Entry) : Registry :=
  { result with
    slots := if result.slots.any fun row => slotId row = slotId item then result.slots
      else result.slots ++ [item]
    selected := (result.selected.filter fun row => row.id ≠ item.id) ++ [⟨item.id, slotId item⟩] }

def commit (rawRegistry : RawRegistry) (additions : List Entry) (removals : List Text)
    (expected : ℤ) : Except Err Registry := do
  let result ← registry rawRegistry
  require (result.revision = expected ∧ expected < 0x7fffffff) .engineStalePlan
  let result := removals.foldl Registry.remove result
  let result ← additions.foldlM (fun result raw => Registry.add result <$> entry (.value raw))
    result
  registry { result with revision := result.revision + 1 }.raw

end Foxhole.Engine
