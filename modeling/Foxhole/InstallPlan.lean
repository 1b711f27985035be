import Foxhole.EngineModel
import Foxhole.Lib.Keyed
import Foxhole.Lib.Worklist

/-! The compact budget of install-plan-model.uc: which packages, indexes and keys an installation
takes, what they add up to, and how they are bound to each other. -/
namespace Foxhole.InstallPlan
open Check Text Worklist Keyed
open Engine (Entry Storage sha dotted versionShape packageVersionShape)

/-- The two ways to die: `reject` and `compact_reject`. -/
inductive Failure where
  | reject | compactReject
deriving DecidableEq

abbrev Checked (α : Type) := Except Failure α

def protocols : List Text :=
  ["anytls", "http", "hysteria2", "naive", "shadowsocks", "shadowtls", "socks", "trojan", "tuic",
    "vless", "vmess", "wireguard"].map String.toList

/-- `^[A-Za-z0-9][A-Za-z0-9_.-]{0,159}$` -/
def nameShape : Regex Char :=
  .seq (.cls isAlnum) (.upTo 159 (.cls fun c => isAlnum c || c ∈ ['_', '.', '-']))

/-- `^[A-Za-z0-9][A-Za-z0-9_.+-]{0,127}$` -/
def packageNameShape : Regex Char :=
  .seq (.cls isAlnum) (.upTo 127 (.cls fun c => isAlnum c || c ∈ ['_', '.', '+', '-']))

/-! A member that is missing or of another type is `none`. -/

def hash (value : Option Text) : Bool := value.any sha
def name (value : Option Text) : Bool := value.any nameShape.accepts
def packageName (value : Option Text) : Bool := value.any packageNameShape.accepts
def version (value : Option Text) : Bool := value.any packageVersionShape.accepts

def number (value : Option ℤ) : Bool := value.any fun n => 0 ≤ n && n ≤ 9007199254740991

/-- A number, not zero and at most `maximum`. -/
def sized (maximum : ℤ) (value : Option ℤ) : Bool :=
  number value && value.any fun n => n ≠ 0 && n ≤ maximum

/-! What is selected. A selection has been made by `compact_selection`, so its members have their
types. -/

structure Asset where
  file : Text
  sha256 : Text
deriving DecidableEq

structure Client where
  id : Text
  storage : Storage
  entry : Entry
  producer : Asset
  capabilities : Asset
  slotManifest : Asset
deriving DecidableEq

structure BasePackage where
  name : Text
  file : Text
  sha256 : Text
  packageIdentity : Text
deriving DecidableEq

/-- A server package as the catalog declares it. -/
structure Declared where
  name : Text
  file : Text
  sha256 : Text
deriving DecidableEq

structure ServerOffer where
  producer : Asset
  modes : List (Storage × Declared)
deriving DecidableEq

structure Platform where
  architecture : Text
  supportedTargets : List Text
  supportedOpenWrt : List Text
  basePackage : BasePackage
  engineCatalog : Asset
  packageUniverse : Asset
  clients : List Client
  server : Option ServerOffer
deriving DecidableEq

structure Selection where
  platform : Platform
  protocols : List Text
  includeServer : Bool
deriving DecidableEq

/-! What the files of the directory hold. -/

structure Package where
  name : Option Text
  file : Option Text
  sha256 : Option Text
  version : Option Text
  arch : Option Text
  archiveBytes : Option ℤ
  installedBytes : Option ℤ
deriving DecidableEq

/-- A row of `packageAuthentications`. -/
structure Binding where
  name : Option Text
  version : Option Text
  architecture : Option Text
  file : Option Text
  indexFile : Option Text
  packageIdentity : Option Text
deriving DecidableEq

structure Index where
  file : Option Text
  sha256 : Option Text
  bytes : Option ℤ
  role : Option Text
  sourceUrl : Option Text
  trustKeyFiles : Option (List (Option Text))
deriving DecidableEq

structure Key where
  file : Option Text
  sha256 : Option Text
  bytes : Option ℤ
deriving DecidableEq

structure Server where
  name : Text
  file : Text
  sha256 : Text
  producerSha256 : Text
  binarySha256 : Text
  executableSha256 : Text
  runtimeMemoryBytes : ℤ
  securityReceiptSha256 : Text
  volatileFile : Option Text
  binaryBytes : Option ℤ
deriving DecidableEq

structure Verification where
  signatureModel : Option Text
  signatures : Option Bool
  factorySourceSha256 : Option Text
  resolver : Option Text
deriving DecidableEq

structure MemoryEvidence where
  schema : Option ℤ
  type : Option Text
  description : Option Text
  provisional : Field Bool
  acceptedForRelease : Field Bool
  measured : Field Bool
deriving DecidableEq

/-- A JSON object: each key once. -/
abbrev Table (α : Type) := List (Text × α)

structure Universe where
  unknown : Bool := false
  schema : Option ℤ
  kind : Option Text
  architecture : Option Text
  supportedTargets : List Text
  supportedOpenWrt : List Text
  verification : Option Verification
  packages : Option (List Package)
  packageAuthentications : Option (List Binding)
  repositoryIndexes : List Index
  trustKeys : List Key
  filesSha256 : Table (Option Text)
  requires : Option (Table (Option (List (Option Text))))
  server : List (Storage × Server)
  baseRuntimeMemoryBytes : Option ℤ
  flashReserveBytes : Option ℤ
  ramReserveBytes : Option ℤ
  memoryEvidence : Option MemoryEvidence
deriving DecidableEq

structure Producer where
  schema : ℤ
  exitCode : ℤ
  target : Text
  binarySha256 : Text
  sourceCommit : Text
  sourceSha256 : Text
  coreVersion : Text
  protocols : List Text
deriving DecidableEq

structure Capabilities where
  schemaVersion : ℤ
  routerContractVersion : ℤ
  platform : Text
  coreVersion : Text
  protocols : List Text
deriving DecidableEq

/-- The members of a slot that are compared with those of an entry. -/
structure Identity where
  id : Text
  storage : Storage
  version : Text
  architecture : Text
  binarySha256 : Text
  executableSha256 : Text
  producerSha256 : Text
  capabilitiesSha256 : Text
  legalProvenanceSha256 : Text
  sourceCommit : Text
  binaryBytes : ℤ
  runtimeMemoryBytes : ℤ
  reserveBytes : ℤ
deriving DecidableEq

structure Slot where
  schema : ℤ
  identity : Identity
deriving DecidableEq

/-- A row of the engine catalog; `entry` is the row when it has the members of an entry and no
others. -/
structure CatalogRow where
  id : Text
  storage : Storage
  architecture : Text
  entry : Option Entry
deriving DecidableEq

structure EngineCatalog where
  unknown : Bool := false
  schema : ℤ
  entries : List CatalogRow
deriving DecidableEq

structure ServerProducer where
  schema : ℤ
  exitCode : ℤ
  target : Text
  binarySha256 : Text
  receiptSha256 : Text
deriving DecidableEq

/-- What is at a path: `bytes` is how much of it was read, `value` the object it holds. -/
structure File (α : Type) where
  regular : Bool := true
  size : ℤ
  bytes : Option ℤ
  value : Option α
deriving DecidableEq

/-- The directory of metadata; a file is looked at as what it should be. -/
structure Directory where
  packageUniverse : Text → Option (File Universe)
  producer : Text → Option (File Producer)
  capabilities : Text → Option (File Capabilities)
  slot : Text → Option (File Slot)
  engineCatalog : Text → Option (File EngineCatalog)
  serverProducer : Text → Option (File ServerProducer)

structure Volatile where
  id : Text
  file : Option Text
  sha256 : Text
  bytes : ℤ
deriving DecidableEq

/-- The value of `compact_budget`. The members that are the same in every value are left out. -/
structure Budget where
  architecture : Text
  mode : Storage
  supportedTargets : List Text
  supportedOpenWrt : List Text
  protocols : List Text
  includeServer : Bool
  modules : List Client
  server : Option Server
  basePackage : BasePackage
  engineCatalogSha256 : Text
  verification : Option Verification
  packages : List Package
  packageAuthentications : List Binding
  repositoryIndexes : List Index
  trustKeys : List Key
  filesSha256 : Table (Option Text)
  rootPackages : List Text
  repositoryIndexBytes : Option ℤ
  trustKeyBytes : Option ℤ
  volatileFiles : List Volatile
  kernel : Option Text
  compressedBytes : Option ℤ
  installedFlashBytes : Option ℤ
  installedRamBytes : Option ℤ
  dependencyInstalledBytes : Option ℤ
  stagingBytes : Option ℤ
  runtimeMemoryBytes : Option ℤ
  flashReserveBytes : Option ℤ
  ramReserveBytes : Option ℤ
  requiredFlashBytes : Option ℤ
  requiredRamBytes : Option ℤ
  evidence : Option Text
deriving DecidableEq

def plus : Option ℤ → Option ℤ → Option ℤ
  | some a, some b => some (a + b)
  | _, _ => none

/-- What a loop adds up from 0; a member that is no number leaves no number. -/
def total (sizes : List (Option ℤ)) : Option ℤ := sizes.foldl plus (some 0)

/-- `join(',', parts)` -/
def join (parts : List Text) : Text := [','].intercalate parts

/-- `sort(parts)`, the order of bytes. -/
def sort (parts : List Text) : List Text := parts.insertionSort (· ≤ ·)

def kernel : Text := "kernel".toList
def client : Text := "foxhole-openwrt-client".toList
def foxhole : Text := "foxhole".toList
def upstream : Text := "upstream".toList

/-- `foxcore-engine-` -/
def enginePrefix : Text := "foxcore-engine-".toList

def serverName : Storage → Text
  | .flash => "hysteria".toList
  | .ram => "hysteria-server-ram".toList

/-- `compact_asset` -/
def Asset.Ok (value : Asset) : Prop :=
  nameShape.accepts value.file = true ∧ sha value.sha256 = true

instance (value : Asset) : Decidable value.Ok := inferInstanceAs (Decidable (_ ∧ _))

def compactIds (requested : Text) : Checked (List Text) := do
  let wanted := if requested = "all".toList then protocols
    else (if requested = [] then "hysteria2".toList else requested).splitOn ','
  require (∀ id ∈ wanted, id ∈ protocols) .compactReject
  let result := wanted.foldl (insertNew id) []
  require (result ≠ [] ∧ result.length ≤ 12) .compactReject
  return sort result

/-- `(0|[1-9][0-9]*)` -/
def numeral : Regex Char :=
  .alt (.lit ['0']) (.seq (.cls fun c => isDigit c && c ≠ '0') (.star (.cls isDigit)))

/-- The `reference[1]` of `compact_release`. -/
def compactRelease (indexUrl : Text) : Option Text :=
  let base := indexUrl.take (indexUrl.length - "engines.adb".length)
  if indexUrl = base ++ "engines.adb".toList ∧
      (Regex.seq (.lit (Engine.BASE ++ ['v'])) (.seq (dotted numeral) (.lit ['/']))).accepts base =
        true then
    some base
  else none

/-- `compact_client` -/
def Client.Ok (value : Client) (architecture : Text) : Prop :=
  let item := value.entry
  (value.id ∈ protocols ∧ item.id = value.id ∧ item.architecture = architecture ∧
    item.storage = value.storage ∧ versionShape.accepts item.version = true ∧
    packageVersionShape.accepts item.packageVersion = true ∧
    (hexOf 40).accepts item.sourceCommit = true) ∧
  item.digests ∧ item.sized ∧
  (value.storage = .flash → item.binarySha256 = item.executableSha256) ∧
  item.packageName = item.package ∧
  (∃ base ∈ compactRelease item.indexUrl, item.packageUrl =
    base ++ item.package ++ ['-'] ++ item.packageVersion ++ ".apk".toList) ∧
  (value.producer.Ok ∧ value.producer.sha256 = item.producerSha256) ∧
  (value.capabilities.Ok ∧ value.capabilities.sha256 = item.capabilitiesSha256) ∧
  value.slotManifest.Ok ∧ value.slotManifest.sha256 = item.manifestSha256

instance (value : Client) (architecture : Text) : Decidable (value.Ok architecture) := by
  unfold Client.Ok Entry.digests Entry.sized
  infer_instance

/-- The one row of a list with a property. -/
def single {α : Type} (rows : List α) (p : α → Bool) : Checked α :=
  match rows.filter p with
  | [row] => .ok row
  | _ => .error .compactReject

/-- The round of `compact_own` for one module. -/
def ownModule (value : Budget) (wanted seen : List Text) (module : Client) : Checked Client := do
  require (module.Ok value.architecture) .compactReject
  require (module.id ∉ seen ∧ module.id ∈ wanted ∧ module.storage = value.mode) .compactReject
  return module

/-- What `compact_own` asks of the package, the binding and the index of a module. -/
def ownPackage (value : Budget) (module : Client) : Checked Unit := do
  let entry := module.entry
  let file := (entry.packageUrl.splitOn '/').getLast?
  let record ← single value.packages fun row => row.name = some entry.packageName
  require (record.file = file ∧ record.sha256 = some entry.packageSha256 ∧
    record.version = some entry.packageVersion ∧ record.arch = some entry.architecture ∧
    record.archiveBytes = some entry.archiveBytes ∧
    record.installedBytes = some entry.installedBytes) .compactReject
  let binding ← single value.packageAuthentications fun row => row.file = file
  let index ← single value.repositoryIndexes fun row => row.file = binding.indexFile
  require (index.role = some foxhole ∧ index.sha256 = some entry.indexSha256 ∧
    index.bytes = some entry.indexBytes ∧ index.sourceUrl = some entry.indexUrl) .compactReject

/-- What it asks of the server. -/
def ownServer (value : Budget) : Checked Unit :=
  if value.includeServer then
    require (∃ server ∈ value.server, server.name = serverName value.mode ∧
      nameShape.accepts server.file = true ∧ sha server.sha256 = true ∧
      sha server.producerSha256 = true ∧ sha server.binarySha256 = true ∧
      sha server.executableSha256 = true) .compactReject
  else require (value.server = none) .compactReject

def serverPackage (value : Budget) (server : Server) : Checked Unit := do
  let record ← single value.packages fun row => row.name = some server.name
  require (record.file = some server.file ∧ record.sha256 = some server.sha256) .compactReject

def ownNames (value : Budget) : List Text :=
  client :: value.modules.map (·.entry.packageName) ++
    if value.includeServer then value.server.toList.map (·.name) else []

/-- A package that only comes as a root. -/
def reserved (names : List Text) (item : Package) : Prop :=
  item.name = some "foxcore-cli".toList ∨ item.name = some "foxcore-cli-ram".toList ∨
  ∃ n ∈ item.name, (enginePrefix <+: n ∨ n = serverName .flash ∨ n = serverName .ram) ∧ n ∉ names

instance (names : List Text) (item : Package) : Decidable (reserved names item) :=
  inferInstanceAs (Decidable (_ ∨ _ ∨ _))

def compactOwn (value : Budget) : Checked (List Text) := do
  require (value.modules ≠ [] ∧ value.modules.length ≤ 12 ∧ value.protocols ≠ [] ∧
    value.protocols.length ≤ 12) .compactReject
  require (∃ v ∈ value.verification, v.signatures = some true ∧
    v.resolver = some "apk add --simulate --no-network".toList) .compactReject
  let wanted ← compactIds (join value.protocols)
  require (wanted.length = value.protocols.length) .compactReject
  let modules ← scan (fun module => [module.id]) (ownModule value wanted) [] value.modules
  require (join (sort (modules.map (·.id))) = join wanted) .compactReject
  ownServer value
  let names := ownNames value
  require (join (sort value.rootPackages) = join (sort names)) .compactReject
  require (∀ item ∈ value.packages, ¬ reserved names item) .compactReject
  let panel := value.basePackage
  require (panel.name = client ∧ nameShape.accepts panel.file = true ∧ sha panel.sha256 = true ∧
    sha panel.packageIdentity = true) .compactReject
  let base ← single value.packages fun row => row.name = some panel.name
  let binding ← single value.packageAuthentications fun row => row.file = some panel.file
  require (base.file = some panel.file ∧ base.sha256 = some panel.sha256 ∧
    binding.packageIdentity = some panel.packageIdentity) .compactReject
  value.modules.forM (ownPackage value)
  value.server.toList.forM (serverPackage value)
  return names

/-- `upstreamUrl`: an index of the release, of its packages, its target or its kernel. -/
def upstreamUrl (value : Budget) (url : Text) : Bool :=
  match url.splitOn '/' with
  | scheme :: gap :: host :: top :: release :: rest =>
    scheme = "https:".toList && gap = [] && host = "downloads.openwrt.org".toList &&
    top = "releases".toList && release ∈ value.supportedOpenWrt &&
    match rest with
    | [kind, architecture, feed, file] =>
      kind = "packages".toList && architecture = value.architecture && packageName (some feed) &&
        file = "packages.adb".toList
    | [kind, target, subtarget, packages, file] =>
      kind = "targets".toList && target ++ ['/'] ++ subtarget ∈ value.supportedTargets &&
        packages = "packages".toList && file = "packages.adb".toList
    | [kind, target, subtarget, kmods, build, file] =>
      kind = "targets".toList && target ++ ['/'] ++ subtarget ∈ value.supportedTargets &&
        kmods = "kmods".toList && name (some build) && file = "packages.adb".toList
    | _ => false
  | _ => false

/-- `^https:\/\/[A-Za-z0-9.-]+\/[A-Za-z0-9_./~+-]+$` -/
def sourceShape : Regex Char :=
  .seq (.lit "https://".toList) (.seq (.plus (.cls fun c => isAlnum c || c = '.' || c = '-'))
    (.seq (.lit ['/']) (.plus (.cls fun c => isAlnum c || c ∈ ['_', '.', '/', '~', '+', '-']))))

/-- An index of a release of the router. -/
def releasedIndex : Regex Char :=
  .seq (.lit (Engine.BASE ++ ['v'])) (.seq versionShape (.seq (.lit ['/'])
    (.seq nameShape (.lit ".adb".toList))))

def sourceUrl (value : Budget) (role url : Text) : Prop :=
  url.length ≤ 4096 ∧ sourceShape.accepts url = true ∧ ['.'] ∉ url.splitOn '/' ∧
  ['.', '.'] ∉ url.splitOn '/' ∧ (role = foxhole → releasedIndex.accepts url = true) ∧
  (role = upstream → upstreamUrl value url = true)

instance (value : Budget) (role url : Text) : Decidable (sourceUrl value role url) :=
  inferInstanceAs (Decidable (_ ∧ _))

/-- `filesSha256[file]` -/
def fileHash (files : Table (Option Text)) (file : Text) : Option Text := (files.lookup file).join

/-- The keys that have been met, each with the role of the index that names it. -/
abbrev Roles := Table Text

def keyStep (value : Budget) (role : Text) (met : List Text × Roles) (key : Option Text) :
    Checked (List Text × Roles) :=
  match key with
  | some key => do
    require (nameShape.accepts key = true ∧ key ∉ met.1 ∧
      hash (fileHash value.filesSha256 key) = true) .reject
    require (∀ old ∈ met.2.lookup key, old = role) .reject
    return (key :: met.1, assign met.2 key role)
  | none => .error .reject

structure Indexed where
  files : List Text
  roles : Roles

def indexStep (value : Budget) (met : Indexed) (item : Index) : Checked Indexed :=
  match item.file, item.role, item.sourceUrl, item.trustKeyFiles with
  | some file, some role, some url, some keys => do
    require (nameShape.accepts file = true ∧ file ∉ met.files ∧ hash item.sha256 = true ∧
      sized 8388608 item.bytes = true ∧ role ∈ [foxhole, upstream] ∧ sourceUrl value role url ∧
      keys ≠ [] ∧ keys.length ≤ 16 ∧ fileHash value.filesSha256 file = item.sha256) .reject
    require (role = foxhole → keys = [some "foxhole-openwrt-apk.pem".toList]) .reject
    let (_, roles) ← keys.foldlM (keyStep value role) ([], met.roles)
    return ⟨met.files ++ [file], roles⟩
  | _, _, _, _ => .error .reject

/-- The digest of the product's own key. -/
def ownKey : Text := "fa220a28fd8662fc5f617f46594bafe2415b4f605136570dc3c446caeb7d1ef1".toList

/-- The files and the digests of keys, in two tables. -/
def keyMarks (item : Key) : List (Bool × Text) :=
  item.file.toList.map (false, ·) ++ item.sha256.toList.map (true, ·)

def recordKey (value : Budget) (roles : Roles) (seen : List (Bool × Text)) (item : Key) :
    Checked Key := do
  require (name item.file = true ∧ hash item.sha256 = true ∧ sized 16384 item.bytes = true ∧
    ∀ mark ∈ keyMarks item, mark ∉ seen) .reject
  require (∃ file ∈ item.file, fileHash value.filesSha256 file = item.sha256 ∧
    ∃ role ∈ roles.lookup file, (role = foxhole ↔ item.sha256 = some ownKey)) .reject
  return item

def recordPackage (seen : List Text) (item : Package) : Checked Package := do
  require (name item.file = true ∧ (∀ file ∈ item.file, file ∉ seen) ∧
    packageName item.name = true ∧ version item.version = true ∧ name item.arch = true) .reject
  return item

def packageAt (value : Budget) (file : Text) : Option Package :=
  value.packages.find? fun row => row.file = some file

def indexAt (value : Budget) (file : Text) : Option Index :=
  value.repositoryIndexes.find? fun row => row.file = some file

/-- The product's own indexes hold its own packages, and no others. -/
def boundTo (own : List Text) (item : Binding) (record : Package) (repo : Index) : Prop :=
  item.name = record.name ∧ item.version = record.version ∧ item.architecture = record.arch ∧
  (repo.role = some foxhole ↔ ∃ n ∈ record.name, n ∈ own)

instance (own : List Text) (item : Binding) (record : Package) (repo : Index) :
    Decidable (boundTo own item record repo) := inferInstanceAs (Decidable (_ ∧ _))

def bindPackage (value : Budget) (own seen : List Text) (item : Binding) : Checked Binding := do
  require (hash item.packageIdentity = true ∧ ∃ file ∈ item.file, file ∉ seen ∧
    ∃ record ∈ packageAt value file, ∃ indexFile ∈ item.indexFile,
    ∃ repo ∈ indexAt value indexFile, boundTo own item record repo) .reject
  return item

/-- `compact_authentication`. Its call of `compact_own` sorts the roots in their place. -/
def compactAuthentication (value : Budget) : Checked Budget := do
  let own ← compactOwn value
  require (∃ v ∈ value.verification,
    v.signatureModel = some "canonical-apk-and-upstream-index-v1".toList ∧
    hash v.factorySourceSha256 = true) .reject
  require (value.repositoryIndexes ≠ [] ∧ value.repositoryIndexes.length ≤ 16 ∧
    value.packageAuthentications.length = value.packages.length) .reject
  let indexed ← value.repositoryIndexes.foldlM (indexStep value) ⟨[], []⟩
  require (indexed.roles.length ≤ 32 ∧
    total (value.repositoryIndexes.map (·.bytes)) = value.repositoryIndexBytes ∧
    number value.trustKeyBytes = true ∧ value.trustKeyBytes ≠ some 0) .reject
  require (value.trustKeys.length = indexed.roles.length) .reject
  let trusted ← scan keyMarks (recordKey value indexed.roles) [] value.trustKeys
  require (total (trusted.map (·.bytes)) = value.trustKeyBytes) .reject
  let keys := indexed.roles.map (·.1)
  require (∀ key ∈ keys, key ∉ indexed.files) .reject
  let packages ← scan (fun item => item.file.toList) recordPackage (indexed.files ++ keys)
    value.packages
  let bound ← scan (fun item => item.file.toList) (bindPackage value own) []
    value.packageAuthentications
  let files := indexed.files ++ keys ++ packages.flatMap (·.file.toList)
  require (bound.length = value.packages.length ∧ files.length = value.filesSha256.length) .reject
  require (∀ row ∈ value.filesSha256, row.1 ∈ files ∧ hash row.2 = true) .reject
  return { value with rootPackages := sort value.rootPackages }

def compactRead {α : Type} (file : Option (File α)) (maximum : ℤ) : Checked α :=
  match file with
  | some file => do
    require (file.regular = true ∧ 0 < file.size ∧ file.size ≤ maximum) .compactReject
    require (file.bytes = some file.size) .compactReject
    match file.value with
    | some value => .ok value
    | none => .error .compactReject
  | none => .error .compactReject

def identity (entry : Entry) : Identity where
  id := entry.id
  storage := entry.storage
  version := entry.version
  architecture := entry.architecture
  binarySha256 := entry.binarySha256
  executableSha256 := entry.executableSha256
  producerSha256 := entry.producerSha256
  capabilitiesSha256 := entry.capabilitiesSha256
  legalProvenanceSha256 := entry.legalProvenanceSha256
  sourceCommit := entry.sourceCommit
  binaryBytes := entry.binaryBytes
  runtimeMemoryBytes := entry.runtimeMemoryBytes
  reserveBytes := entry.reserveBytes

def muslTarget (architecture : Text) : Text :=
  (if architecture = "x86_64".toList then "x86_64".toList else "aarch64".toList) ++
    "-unknown-linux-musl".toList

/-- The round of `compact_payloads` for one protocol. -/
def payload (platform : Platform) (directory : Directory) (mode : Storage) (id : Text) :
    Checked Client := do
  let client ← single platform.clients fun row => row.id = id && row.storage = mode
  let entry := client.entry
  let producer ← compactRead (directory.producer client.producer.file) 131072
  let caps ← compactRead (directory.capabilities client.capabilities.file) 131072
  let slot ← compactRead (directory.slot client.slotManifest.file) 131072
  require (producer.schema = 1 ∧ producer.exitCode = 0 ∧
    producer.target = muslTarget platform.architecture ∧
    producer.binarySha256 = entry.binarySha256 ∧ producer.sourceCommit = entry.sourceCommit ∧
    sha producer.sourceSha256 = true ∧ producer.coreVersion = entry.version ∧
    join producer.protocols = id) .compactReject
  require (caps.schemaVersion = 1 ∧ caps.routerContractVersion = 1 ∧
    caps.platform = "linux".toList ∧ caps.coreVersion = producer.coreVersion ∧
    join caps.protocols = id) .compactReject
  require (slot.schema = 1 ∧ slot.identity = identity entry) .compactReject
  return client

def catalogued (all : List CatalogRow) (client : Client) : Checked Unit := do
  let row ← single all fun row => row.id = client.id && row.storage = client.entry.storage
  require (row.entry = some client.entry) .compactReject

def compactPayloads (selected : Selection) (directory : Directory) (mode : Storage) :
    Checked (List Client) := do
  let platform := selected.platform
  let modules ← selected.protocols.mapM (payload platform directory mode)
  let catalog ← compactRead (directory.engineCatalog platform.engineCatalog.file) 524288
  require (catalog.unknown = false ∧ catalog.schema = 1 ∧ catalog.entries.length ≤ 72)
    .compactReject
  let all := catalog.entries.filter fun row => row.architecture = platform.architecture
  require (all.length = platform.clients.length) .compactReject
  platform.clients.forM (catalogued all)
  return modules

def goTarget (architecture : Text) : Text :=
  if architecture = "x86_64".toList then "linux-amd64".toList else "linux-arm64".toList

def compactServer (selected : Selection) (packageUniverse : Universe) (directory : Directory)
    (mode : Storage) : Checked (Option Server) :=
  if selected.includeServer then
    match selected.platform.server with
    | some offer =>
      match offer.modes.lookup mode, packageUniverse.server.lookup mode with
      | some declared, some server => do
        require (mode = .flash → server.volatileFile = none ∧ server.binaryBytes = none)
          .compactReject
        require (server.name = declared.name ∧ server.file = declared.file ∧
          server.sha256 = declared.sha256 ∧ server.producerSha256 = offer.producer.sha256 ∧
          sha server.binarySha256 = true ∧ sha server.executableSha256 = true ∧
          sized 2147483648 (some server.runtimeMemoryBytes) = true ∧
          sha server.securityReceiptSha256 = true) .compactReject
        let producer ← compactRead (directory.serverProducer offer.producer.file) 131072
        require (producer.schema = 1 ∧ producer.exitCode = 0 ∧
          producer.target = goTarget selected.platform.architecture ∧
          producer.binarySha256 = server.binarySha256 ∧
          producer.receiptSha256 = server.securityReceiptSha256 ∧
          (mode = .flash → server.executableSha256 = server.binarySha256)) .compactReject
        require (mode = .ram → name server.volatileFile = true ∧
          sized 67108864 server.binaryBytes = true) .compactReject
        return some server
      | _, _ => .error .compactReject
    | none => .error .compactReject
  else .ok none

/-- What `compact_budget` reads off a package universe before it looks at its rows. -/
structure Inventory where
  packages : List Package
  bindings : List Binding
  requires : Table (Option (List (Option Text)))

def inventory (platform : Platform) (value : Universe) : Checked Inventory :=
  match value.packages, value.packageAuthentications, value.requires with
  | some packages, some bindings, some requires => do
    require (value.unknown = false ∧ value.schema = some 2 ∧
      value.kind = some "compact-package-universe-v1".toList ∧
      value.architecture = some platform.architecture ∧
      join value.supportedTargets = join platform.supportedTargets ∧
      join value.supportedOpenWrt = join platform.supportedOpenWrt ∧ packages ≠ [] ∧
      packages.length ≤ 512 ∧ bindings.length = packages.length) .compactReject
    return ⟨packages, bindings, requires⟩
  | _, _, _ => .error .compactReject

/-- A name that has not been met, where it is one. -/
def newName (known : Text → Prop) [DecidablePred known] (seen : List Text) (value : Option Text) :
    Checked Text :=
  match value with
  | some n => do
    require (packageNameShape.accepts n = true ∧ n ∉ seen ∧ known n) .compactReject
    return n
  | none => .error .compactReject

/-- The keys of `by_name`. -/
def byName (packages : List Package) : Checked (List Text) :=
  scan (fun n => [n]) (newName fun _ => True) [] (packages.map (·.name))

/-- `universe.requires[name]` -/
def required (requires : Table (Option (List (Option Text)))) (n : Text) :
    Option (List (Option Text)) := (requires.lookup n).join

/-- What one round of the worklist asks of a name. -/
def dependencies (names : List Text) (requires : Table (Option (List (Option Text)))) (n : Text) :
    Checked (List Text) := do
  require (n ∈ names) .compactReject
  match required requires n with
  | some rows => do
    require (rows.length ≤ 64) .compactReject
    scan (fun n => [n]) (newName (· ∈ names)) [] rows
  | none => .error .compactReject

/-- The `wanted` of `compact_budget`. -/
def closure (rows : Inventory) (roots : List Text) : Checked (List Text) := do
  let names ← byName rows.packages
  let done ← explore (dependencies names rows.requires) .compactReject 512
    ((kernel :: roots).foldl enqueue Work.empty)
  return done.wanted

def checkPackage (files : Table (Option Text)) (item : Package) : Checked Unit :=
  require (name item.file = true ∧ (∃ file ∈ item.file, ".apk".toList <:+ file) ∧
    hash item.sha256 = true ∧ sized 536870912 item.archiveBytes = true ∧
    number item.installedBytes = true ∧ (∀ n ∈ item.installedBytes, n ≤ 2147483648) ∧
    ∃ file ∈ item.file, fileHash files file = item.sha256) .compactReject

/-- `files[file] = sha256` -/
def putFile (files : Table (Option Text)) (row : Option Text × Option Text) : Table (Option Text) :=
  match row.1 with
  | some file => assign files file row.2
  | none => files

def Index.keys (item : Index) : List Text := (item.trustKeyFiles.getD []).filterMap id

/-- The binaries that are kept in memory. -/
def volatiles (platform : Platform) (mode : Storage) (modules : List Client)
    (server : Option Server) : List Volatile :=
  match mode with
  | .flash => []
  | .ram =>
    (modules.map fun client =>
      { id := client.id
        file := some ("engine-".toList ++ client.id ++ ['-'] ++ platform.architecture ++ ['-'] ++
          client.entry.binarySha256 ++ ".bin".toList)
        sha256 := client.entry.binarySha256
        bytes := client.entry.binaryBytes : Volatile }) ++
    server.toList.map fun server =>
      { id := "server".toList
        file := server.volatileFile
        sha256 := server.binarySha256
        bytes := server.binaryBytes.getD 0 }

def double (n : Option ℤ) : Option ℤ := plus n n

/-- The checks of the memory evidence. A member that is there and no boolean is `invalid`. -/
def evidenceOk (value : MemoryEvidence) (development : Bool) : Prop :=
  value.schema = some 1 ∧ value.type = some "conservative".toList ∧
  (∃ d ∈ value.description, d ≠ [] ∧ d.length ≤ 4096) ∧
  (development = false →
    value.provisional ≠ .value true ∧ value.acceptedForRelease ≠ .value false) ∧
  (∀ member ∈ [value.provisional, value.acceptedForRelease, value.measured], member ≠ .invalid) ∧
  value.measured ≠ .value true

instance (value : MemoryEvidence) (development : Bool) :
    Decidable (evidenceOk value development) := by
  unfold evidenceOk
  infer_instance

/-- The value that `compact_budget` puts together from the wanted rows. -/
def collect (selected : Selection) (mode : Storage) (packageUniverse : Universe) (rows : Inventory)
    (modules : List Client) (server : Option Server) (roots wanted : List Text) : Budget :=
  let platform := selected.platform
  let isWanted (n : Option Text) : Bool := n.any (· ∈ wanted)
  let packages := rows.packages.filter fun row => isWanted row.name
  let authentications := rows.bindings.filter fun row => isWanted row.name
  let usedIndexes := authentications.filterMap (·.indexFile)
  let indexes := packageUniverse.repositoryIndexes.filter fun row =>
    row.file.any (· ∈ usedIndexes)
  let usedKeys := indexes.flatMap Index.keys
  let trust := packageUniverse.trustKeys.filter fun row => row.file.any (· ∈ usedKeys)
  let compressed := total (packages.map (·.archiveBytes))
  let installed := total (packages.map (·.installedBytes))
  let rootInstalled := total
    ((packages.filter fun row => row.name.any (· ∈ roots)).map (·.installedBytes))
  let indexBytes := total (indexes.map (·.bytes))
  let keyBytes := total (trust.map (·.bytes))
  let volatileFiles := volatiles platform mode modules server
  let volatileBytes := some (volatileFiles.map (·.bytes)).sum
  let clientRuntime := modules.foldl (fun n client => max n client.entry.runtimeMemoryBytes) 0
  let serverRuntime := (server.map (·.runtimeMemoryBytes)).getD 0
  let runtime := plus (some clientRuntime)
    (plus packageUniverse.baseRuntimeMemoryBytes (some serverRuntime))
  let staging := plus (plus (plus (plus (double compressed) installed) volatileBytes)
    (double indexBytes)) keyBytes
  { architecture := platform.architecture
    mode := mode
    supportedTargets := platform.supportedTargets
    supportedOpenWrt := platform.supportedOpenWrt
    protocols := selected.protocols
    includeServer := selected.includeServer
    modules := modules
    server := server
    basePackage := platform.basePackage
    engineCatalogSha256 := platform.engineCatalog.sha256
    verification := packageUniverse.verification
    packages := packages
    packageAuthentications := authentications
    repositoryIndexes := indexes
    trustKeys := trust
    filesSha256 := (packages.map (fun row => (row.file, row.sha256)) ++
      indexes.map (fun row => (row.file, row.sha256)) ++
      trust.map (fun row => (row.file, row.sha256))).foldl putFile []
    rootPackages := roots
    repositoryIndexBytes := indexBytes
    trustKeyBytes := keyBytes
    volatileFiles := volatileFiles
    kernel := (rows.packages.find? fun row => row.name = some kernel).bind (·.version)
    compressedBytes := compressed
    installedFlashBytes := installed
    installedRamBytes := volatileBytes
    dependencyInstalledBytes := plus installed (rootInstalled.map (- ·))
    stagingBytes := staging
    runtimeMemoryBytes := runtime
    flashReserveBytes := packageUniverse.flashReserveBytes
    ramReserveBytes := packageUniverse.ramReserveBytes
    requiredFlashBytes := plus installed packageUniverse.flashReserveBytes
    requiredRamBytes := plus (plus staging runtime) packageUniverse.ramReserveBytes
    evidence := packageUniverse.memoryEvidence.bind (·.description) }

def Budget.numbers (value : Budget) : List (Option ℤ) :=
  [value.compressedBytes, value.installedFlashBytes, value.installedRamBytes,
    value.dependencyInstalledBytes, value.stagingBytes, value.runtimeMemoryBytes,
    value.flashReserveBytes, value.ramReserveBytes, value.requiredFlashBytes,
    value.requiredRamBytes, value.repositoryIndexBytes, value.trustKeyBytes]

def storageOf (mode : Text) : Checked Storage :=
  if mode = "flash".toList then .ok .flash
  else if mode = "ram".toList then .ok .ram
  else .error .compactReject

/-- The names that are put into `roots`, after the kernel. -/
def rootNames (modules : List Client) (server : Option Server) : List Text :=
  client :: modules.map (·.entry.packageName) ++ server.toList.map (·.name)

def compactBudget (selected : Selection) (directory : Directory) (mode : Text)
    (development : Bool) : Checked Budget := do
  let mode ← storageOf mode
  let platform := selected.platform
  let packageUniverse ←
    compactRead (directory.packageUniverse platform.packageUniverse.file) 2097152
  let rows ← inventory platform packageUniverse
  let modules ← compactPayloads selected directory mode
  let server ← compactServer selected packageUniverse directory mode
  let roots := rootNames modules server
  let wanted ← closure rows roots
  let value := collect selected mode packageUniverse rows modules server roots wanted
  value.packages.forM (checkPackage packageUniverse.filesSha256)
  require (∀ size ∈ [packageUniverse.baseRuntimeMemoryBytes, packageUniverse.flashReserveBytes,
    packageUniverse.ramReserveBytes], sized 2147483648 size = true) .compactReject
  require (∀ size ∈ [packageUniverse.flashReserveBytes, packageUniverse.ramReserveBytes],
    ∀ n ∈ size, 16777216 ≤ n) .compactReject
  require (∃ evidence ∈ packageUniverse.memoryEvidence, evidenceOk evidence development)
    .compactReject
  require (∀ size ∈ value.numbers, number size = true) .compactReject
  compactAuthentication value

end Foxhole.InstallPlan
