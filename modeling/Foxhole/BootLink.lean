import Foxhole.Address
import Foxhole.Lib.Check

/-! boot.json, which the running system rewrites in ram-bootstrap-link.uc and the early boot reads
in tools/ram-bootstrap-model.uc. -/
namespace Foxhole.BootLink
open Check Text Address

inductive Failure where
  | packageVerificationFailed | ramStageUnavailable | stalePlan | downgradeRejected
  | downloadFailed | recoveryRequired
  | ramBootstrapValidationFailed
deriving DecidableEq

abbrev Checked (α : Type) := Except Failure α

/-- An object; `exact` says that it has the members below and no others. -/
structure Artifact where
  exact : Bool := true
  url : Field Text
  bytes : Field ℤ
  sha256 : Field Text
deriving DecidableEq

structure Overlay where
  exact : Bool := true
  baseVersion : Field Text
  baseSha256 : Field Text
  artifact : Field Artifact
deriving DecidableEq

structure Descriptor where
  exact : Bool := true
  schema : Field ℤ
  kind : Field Text
  artifact : Field Artifact
  version : Field Text
  baseVersion : Field Text
  arch : Field Text
  target : Field Text
  osRelease : Field Text
  baseSha256 : Field Text
  signerPemSha256 : Field Text
  caFileSha256 : Field Text
  recoveryOrigin : Field Text
  overlay : Field Overlay
deriving DecidableEq

/-- `json()`, `sprintf('%J')` and the digest module. -/
structure Host where
  json : Text → Option Descriptor
  print : Descriptor → Text
  sha256 : Text → Text

def maximumDescriptor : ℕ := 8192

/-! What ram-update-model.uc and the early boot both have. -/

def sha (value : Text) : Bool := (hexOf 64).accepts value

def integer (value : ℤ) : Bool := 0 ≤ value && value ≤ 9007199254740991

/-- `[0-9]{1,6}` -/
def shortDigits : Regex Char := .seq (.cls isDigit) (.upTo 5 (.cls isDigit))

/-- `^[0-9]{1,6}\.[0-9]{1,6}\.[0-9]{1,6}-r[1-9][0-9]{0,5}$` -/
def versionShape : Regex Char :=
  .seq shortDigits (.seq (.lit ['.']) (.seq shortDigits (.seq (.lit ['.']) (.seq shortDigits
    (.seq (.lit ['-', 'r']) (.seq (.cls fun c => isDigit c && c ≠ '0')
      (.upTo 5 (.cls isDigit))))))))

def version (value : Text) : Bool := versionShape.accepts value

/-- `replace(value, '-r', '.')` -/
def dashToDot : Text → Text
  | '-' :: 'r' :: rest => '.' :: dashToDot rest
  | c :: rest => c :: dashToDot rest
  | [] => []

def versionParts (value : Text) : List ℕ := ((dashToDot value).splitOn '.').map decimalValue

/-- `compare(a, b) > 0`; a text that is no version fails. -/
def newer (a b : Text) : Prop :=
  version a = true ∧ version b = true ∧ versionParts b < versionParts a

instance (a b : Text) : Decidable (newer a b) := inferInstanceAs (Decidable (_ ∧ _))

def hostShape : Regex Char :=
  .seq (.cls isAlnum) (.star (.cls fun c => isAlnum c || c = '.' || c = '-'))

/-- `:([1-9][0-9]{0,4})` -/
def portShape : Regex Char :=
  .seq (.lit [':']) (.seq (.cls fun c => isDigit c && c ≠ '0') (.upTo 4 (.cls isDigit)))

def isPathChar (c : Char) : Bool := isAlnum c || c ∈ ['.', '_', '~', '%', '+', '/', '-']

/-- `%(00|0[aAdD]|2[eEfF]|3[fF]|23|40|5[cC])` -/
def escapes : List Text :=
  ["%00", "%0a", "%0A", "%0d", "%0D", "%2e", "%2E", "%2f", "%2F", "%3f", "%3F", "%23", "%40", "%5c",
    "%5C"].map String.toList

/-- Behind its host, the path of a URL and what is not let into it. -/
def plainPath (path : Text) : Bool :=
  ['.'] ∉ path.splitOn '/' && ['.', '.'] ∉ path.splitOn '/' &&
    path.tails.all fun rest => escapes.all fun e => !e.isPrefixOf rest

def httpsTag : Text := "https://".toList

/-- `url`, as far as the two copies agree; `least` characters stand behind the slash. -/
def url (least : ℕ) (value : Text) : Bool :=
  let rest := value.drop httpsTag.length
  let authority := rest.takeWhile (· ≠ '/')
  let path := rest.dropWhile (· ≠ '/')
  let port := authority.dropWhile (· ≠ ':')
  value.length ≤ 1024 && !hasCntrl value && httpsTag.isPrefixOf value &&
    hostShape.accepts (authority.takeWhile (· ≠ ':')) &&
    (port = [] || portShape.accepts port && decimalValue (port.drop 1) ≤ 65535) &&
    path.head? = some '/' && path.all isPathChar && least + 1 ≤ path.length && plainPath path

def platformOk (arch target release : Field Text) : Prop :=
  release = .value "25.12.5".toList ∧
  (arch = .value "aarch64_cortex-a53".toList ∧ target = .value "mediatek/filogic".toList ∨
    arch = .value "x86_64".toList ∧ target = .value "x86/64".toList)

instance (arch target release : Field Text) : Decidable (platformOk arch target release) :=
  inferInstanceAs (Decidable (_ ∧ _))

def isValue {α : Type} (p : α → Bool) (field : Field α) : Bool := field.value?.any p

/-- An artifact of at most so many bytes. -/
def artifactOk (least : ℕ) (maximum : ℤ) (value : Field Artifact) : Prop :=
  ∃ a ∈ value.value?, a.exact = true ∧ isValue (url least) a.url = true ∧
    isValue (fun n => integer n && 1 ≤ n && n ≤ maximum) a.bytes = true ∧
    isValue sha a.sha256 = true

instance (least : ℕ) (maximum : ℤ) (value : Field Artifact) :
    Decidable (artifactOk least maximum value) := by
  unfold artifactOk
  infer_instance

/-- What both descriptors check of the baseline, but for the signer. -/
def baselineOk (least : ℕ) (value : Descriptor) : Prop :=
  value.exact = true ∧ value.schema = .value 1 ∧
  value.kind = .value "foxhole-ram-bootstrap-v1".toList ∧ isValue version value.version = true ∧
  isValue version value.baseVersion = true ∧ isValue sha value.baseSha256 = true ∧
  (value.caFileSha256 = .missing ∨ isValue sha value.caFileSha256 = true) ∧
  artifactOk least 33554432 value.artifact ∧
  isValue (fun o => url least o && o.getLast? = some '/') value.recoveryOrigin = true ∧
  platformOk value.arch value.target value.osRelease

instance (least : ℕ) (value : Descriptor) : Decidable (baselineOk least value) := by
  unfold baselineOk
  infer_instance

/-! ram-bootstrap-link.uc -/
namespace Link

def signerSha256 : Text :=
  "fa220a28fd8662fc5f617f46594bafe2415b4f605136570dc3c446caeb7d1ef1".toList

def artifactUrl (origin version : Text) : Text :=
  origin ++ "foxhole-openwrt-client-".toList ++ version ++ ".apk".toList

/-- The path may be a slash alone here. -/
def url : Text → Bool := BootLink.url 0

def recoveryOverlay (value : Descriptor) (version sha256 : Text) (bytes : ℤ) : Checked Overlay :=
  match value.baseVersion, value.recoveryOrigin with
  | .value base, .value origin => do
    require (BootLink.version version = true ∧ sha sha256 = true ∧ integer bytes = true ∧
      1 ≤ bytes ∧ bytes ≤ 8388608 ∧ newer version base) .packageVerificationFailed
    require (url (artifactUrl origin version) = true) .packageVerificationFailed
    return { baseVersion := .value version, baseSha256 := .value sha256,
             artifact := .value { url := .value (artifactUrl origin version),
                                  bytes := .value bytes, sha256 := .value sha256 } }
  | _, _ => .error .packageVerificationFailed

/-- The overlay of a descriptor is the one made of its own members. -/
def overlayOk (value : Descriptor) : Checked Unit :=
  match value.overlay with
  | .missing => .ok ()
  | .invalid => .error .packageVerificationFailed
  | .value overlay =>
    match overlay.baseVersion, overlay.baseSha256, overlay.artifact with
    | .value version, .value sha256, .value artifact =>
      match artifact.bytes with
      | .value bytes => do
        require (overlay.exact = true ∧ artifact.exact = true) .packageVerificationFailed
        let made ← recoveryOverlay value version sha256 bytes
        require (overlay = made) .packageVerificationFailed
      | _ => .error .packageVerificationFailed
    | _, _, _ => .error .packageVerificationFailed

def descriptor (value : Descriptor) : Checked Descriptor := do
  require (baselineOk 0 value ∧ value.signerPemSha256 = .value signerSha256)
    .packageVerificationFailed
  overlayOk value
  return value

/-! What a call finds: the files, and what the commands it runs answer. -/

/-- The bank; `hashed` is the digest the hashing command prints, where everything about it is in
order. -/
structure Bank where
  regular : Bool
  size : ℤ
  identity : Text
  hashed : Option Text
deriving DecidableEq

/-- /tmp/foxhole-ram-active.json -/
structure Marker where
  schema : Field ℤ
  phase : Field Text
  storage : Field Text
  version : Field Text
  baseSha256 : Field Text
  bankVersion : Field Text
  bankBaseVersion : Field Text
  bankBaseSha256 : Field Text
deriving DecidableEq

/-- `owned` says that the directories and files of the trust are the owner's alone. -/
structure Look where
  boot : Option Text
  owned : Bool
  signer : Option Text
  ca : Option Text
  bank : Option Bank
  marker : Option Marker
deriving DecidableEq

structure Context where
  raw : Text
  sha256 : Text
  value : Descriptor
  bankIdentity : Text
deriving DecidableEq

/-- `value.overlay||value`, as far as it is read: the base that is in effect. -/
def effective (value : Descriptor) : Field Text × Field Text :=
  match value.overlay with
  | .value overlay => (overlay.baseVersion, overlay.baseSha256)
  | _ => (value.baseVersion, value.baseSha256)

def digestOf (host : Host) (raw : Option Text) : Field Text := Field.ofOption (raw.map host.sha256)

def snapshot (host : Host) (look : Look) : Checked Context :=
  match look.boot with
  | none => .error .ramStageUnavailable
  | some text => do
    require (text.length ≤ maximumDescriptor) .packageVerificationFailed
    match host.json text with
    | none => .error .ramStageUnavailable
    | some value => do
      require (Succeeds (descriptor value)) .ramStageUnavailable
      require (look.owned = true) .packageVerificationFailed
      require (digestOf host look.signer = value.signerPemSha256) .packageVerificationFailed
      require (value.caFileSha256 ≠ .missing → digestOf host look.ca = value.caFileSha256)
        .packageVerificationFailed
      match look.bank with
      | none => .error .ramStageUnavailable
      | some bank => do
        require (bank.regular = true ∧
          ∃ a ∈ value.artifact.value?, a.bytes = .value bank.size) .ramStageUnavailable
        require (∃ a ∈ value.artifact.value?, Field.ofOption bank.hashed = a.sha256)
          .packageVerificationFailed
        return { raw := text, sha256 := host.sha256 text, value := value,
                 bankIdentity := bank.identity }

/-- A member that is not there matches anything. -/
def agrees (member value : Field Text) : Prop := member = .missing ∨ member = value

instance (member value : Field Text) : Decidable (agrees member value) :=
  inferInstanceAs (Decidable (_ ∨ _))

def currentMatches (look : Look) (context : Context) : Checked Unit :=
  match look.marker with
  | none => .error .packageVerificationFailed
  | some marker =>
    require (marker.schema = .value 1 ∧ marker.phase = .value "active".toList ∧
      marker.storage = .value "RAM".toList ∧
      (marker.version, marker.baseSha256) = effective context.value ∧
      agrees marker.bankVersion context.value.version ∧
      agrees marker.bankBaseVersion context.value.baseVersion ∧
      agrees marker.bankBaseSha256 context.value.baseSha256) .stalePlan

structure Candidate where
  version : Text
  sha256 : Text
  bytes : ℤ
deriving DecidableEq

structure Proof where
  descriptorSha256 : Text
  bankSha256 : Field Text
  bankIdentity : Text
  baselineBaseVersion : Field Text
  baselineBaseSha256 : Field Text
  candidatePayloadSha256 : Text
  overlay : Overlay
deriving DecidableEq

/-- What the fetching command leaves. -/
structure Fetched where
  clean : Bool
  code : ℤ
  stdout : Option Text
  stderr : Option Text
deriving DecidableEq

/-- `[Rr][Ee][Dd][Ii][Rr][Ee][Cc][Tt]|[Cc]ertificate|SSL error|[Tt][Ll][Ss] error` -/
def complained (stderr : Text) : Bool :=
  stderr.tails.any fun rest =>
    lc (rest.take 8) = "redirect".toList || "certificate".toList.isPrefixOf rest ||
    "Certificate".toList.isPrefixOf rest || "SSL error".toList.isPrefixOf rest ||
    lc (rest.take 3) = "tls".toList && " error".toList.isPrefixOf (rest.drop 3)

def bankSha256 (value : Descriptor) : Field Text :=
  match value.artifact with
  | .value a => a.sha256
  | _ => .missing

/-- `again` is what the files are once the package has been fetched. -/
def prove (host : Host) (look again : Look) (fetched : Fetched) (candidate : Candidate)
    (payloadSha256 : Text) : Checked Proof := do
  let context ← snapshot host look
  currentMatches look context
  require (sha payloadSha256 = true ∧
    ∃ base ∈ (effective context.value).1.value?, newer candidate.version base) .downgradeRejected
  let overlay ← recoveryOverlay context.value candidate.version candidate.sha256 candidate.bytes
  require (fetched.clean = true ∧ fetched.code = 0 ∧
    (∃ stderr ∈ fetched.stderr, complained stderr = false) ∧
    ∃ stdout ∈ fetched.stdout, (stdout.length : ℤ) = candidate.bytes ∧
      host.sha256 stdout = candidate.sha256) .downloadFailed
  require (again.boot = some context.raw ∧
    again.bank.map (·.identity) = some context.bankIdentity) .stalePlan
  return { descriptorSha256 := context.sha256, bankSha256 := bankSha256 context.value,
           bankIdentity := context.bankIdentity,
           baselineBaseVersion := context.value.baseVersion,
           baselineBaseSha256 := context.value.baseSha256,
           candidatePayloadSha256 := payloadSha256, overlay := overlay }

def proofMatches (proof : Proof) (candidate : Candidate) (payloadSha256 : Text)
    (context : Context) : Checked Unit := do
  require (proof.descriptorSha256 = context.sha256 ∧
    proof.bankSha256 = bankSha256 context.value ∧ proof.bankIdentity = context.bankIdentity ∧
    proof.baselineBaseVersion = context.value.baseVersion ∧
    proof.baselineBaseSha256 = context.value.baseSha256 ∧
    proof.candidatePayloadSha256 = payloadSha256) .stalePlan
  let overlay ← recoveryOverlay context.value candidate.version candidate.sha256 candidate.bytes
  require (proof.overlay = overlay) .stalePlan

structure Journal where
  oldRaw : Text
  oldSha256 : Text
  newRaw : Text
  newSha256 : Text
  bankIdentity : Text
deriving DecidableEq

def journal (host : Host) (look : Look) (proof : Proof) (candidate : Candidate)
    (payloadSha256 : Text) : Checked Journal := do
  let context ← snapshot host look
  currentMatches look context
  proofMatches proof candidate payloadSha256 context
  let next ← descriptor { context.value with overlay := .value proof.overlay }
  let text := host.print next
  require (text.length ≤ maximumDescriptor) .packageVerificationFailed
  return { oldRaw := context.raw, oldSha256 := context.sha256, newRaw := text,
           newSha256 := host.sha256 text, bankIdentity := context.bankIdentity }

/-- `descriptor(json(raw))` -/
def readDescriptor (host : Host) (raw : Text) : Checked Descriptor :=
  match host.json raw with
  | some value => descriptor value
  | none => .error .packageVerificationFailed

def journalValid (host : Host) (value : Journal) : Checked Unit := do
  require (value.oldRaw.length ≤ maximumDescriptor ∧ value.newRaw.length ≤ maximumDescriptor ∧
    host.sha256 value.oldRaw = value.oldSha256 ∧ host.sha256 value.newRaw = value.newSha256)
    .packageVerificationFailed
  let old ← readDescriptor host value.oldRaw
  let next ← readDescriptor host value.newRaw
  require (old = { next with overlay := old.overlay } ∧
    ∃ overlay ∈ next.overlay.value?, ∃ version ∈ overlay.baseVersion.value?,
      ∃ base ∈ (effective old).1.value?, newer version base) .packageVerificationFailed

/-- boot.json, the file it is replaced from, and the bank. -/
structure Disk where
  boot : Option Text
  temporary : Option Text
  bankIdentity : Option Text
deriving DecidableEq

/-- How far `store.write` has come. -/
inductive Cut where
  | before
  | during (written : ℕ)
  | renamed
deriving DecidableEq

/-- `store.write(BOOT, raw)`, up to a point. -/
def writeUntil (raw : Text) (disk : Disk) : Cut → Disk
  | .before => disk
  | .during written => { disk with temporary := some (raw.take written) }
  | .renamed => { disk with boot := some raw, temporary := none }

/-- `commit`, up to a point of its write. -/
def commitUntil (host : Host) (value : Journal) (disk : Disk) (cut : Cut) : Checked Disk := do
  journalValid host value
  require ((disk.boot = some value.oldRaw ∨ disk.boot = some value.newRaw) ∧
    disk.bankIdentity = some value.bankIdentity) .stalePlan
  return if disk.boot = some value.newRaw then disk else writeUntil value.newRaw disk cut

def commit (host : Host) (value : Journal) (disk : Disk) : Checked Disk := do
  let disk ← commitUntil host value disk .renamed
  require (disk.boot = some value.newRaw) .packageVerificationFailed
  return disk

def restoreUntil (host : Host) (value : Journal) (disk : Disk) (cut : Cut) : Checked Disk := do
  journalValid host value
  require (disk.boot = some value.oldRaw ∨ disk.boot = some value.newRaw) .recoveryRequired
  return if disk.boot = some value.oldRaw then disk else writeUntil value.oldRaw disk cut

def restore (host : Host) (value : Journal) (disk : Disk) : Checked Disk := do
  let disk ← restoreUntil host value disk .renamed
  require (disk.boot = some value.oldRaw) .recoveryRequired
  return disk

end Link

/-! tools/ram-bootstrap-model.uc -/
namespace Boot

def url : Text → Bool := BootLink.url 1

def overlayOk (value : Descriptor) (overlay : Overlay) : Prop :=
  overlay.exact = true ∧
  (∃ version ∈ overlay.baseVersion.value?, (∃ base ∈ value.baseVersion.value?, newer version base) ∧
    ∃ a ∈ overlay.artifact.value?, a.exact = true ∧ isValue sha overlay.baseSha256 = true ∧
      a.sha256 = overlay.baseSha256 ∧
      isValue (fun n => integer n && 1 ≤ n && n ≤ 8388608) a.bytes = true ∧
      ∃ address ∈ a.url.value?, url address = true ∧
        ∃ origin ∈ value.recoveryOrigin.value?, address = Link.artifactUrl origin version)

instance (value : Descriptor) (overlay : Overlay) : Decidable (overlayOk value overlay) := by
  unfold overlayOk
  infer_instance

def descriptor (value : Descriptor) : Checked Descriptor := do
  require (baselineOk 1 value ∧ isValue sha value.signerPemSha256 = true)
    .ramBootstrapValidationFailed
  require (value.overlay = .missing ∨ ∃ overlay ∈ value.overlay.value?, overlayOk value overlay)
    .ramBootstrapValidationFailed
  return value

end Boot
end Foxhole.BootLink
