import Foxhole.Lib.Command
import Foxhole.Lib.Trace
import Foxhole.Ucode
import Mathlib.Data.List.Infix

/-! Uploading a package for a RAM deployment: the journal upload.json, the payload file it speaks
of, and the calls device_chunk, device_status and device_finish. -/
namespace Foxhole.RamUpload
open Text Command

def maximumApkBytes : ℕ := 8388608

def maximumChunkBytes : ℕ := 65536

structure Manifest where
  requestId : Text
  releaseTag : Text
  version : Text
  fileSha256 : Text
  fileBytes : ℕ
deriving DecidableEq

structure Chunk where
  offset : ℕ
  bytes : ℕ
  sha256 : Text
deriving DecidableEq

structure Candidate where
  id : Text
  receiptSha256 : Text
  version : Text
  sha256 : Text
  bytes : ℕ
deriving DecidableEq

inductive Phase where
  | receiving | verifying | finished | failed | expired
deriving DecidableEq

/-- upload.json -/
structure Upload where
  id : Text
  owner : Text
  /-- the principal as `%J` prints it -/
  principal : Text
  manifest : Manifest
  nextOffset : ℕ
  last : Option Chunk
  pending : Option Chunk
  phase : Phase
  failureReason : Option Err := none
  candidateId : Option Text := none
  verifiedCandidate : Option Candidate := none
  expiresAtUptimeMs : ℕ
  bootId : Text
  stopIntent : ℕ
deriving DecidableEq

/-- `model.integer(value)` -/
def integer (n : ℕ) : Prop := n ≤ 9007199254740991

def sha (value : Text) : Prop := (hexOf 64).accepts value = true

instance (n : ℕ) : Decidable (integer n) := inferInstanceAs (Decidable (_ ≤ _))

instance (value : Text) : Decidable (sha value) := inferInstanceAs (Decidable (_ = _))

/-- `[0-9]{1,6}` -/
def part : Regex Char := .seq (.cls isDigit) (.upTo 5 (.cls isDigit))

def dottedParts : Regex Char := .seq part (.seq (.lit ['.']) (.seq part (.seq (.lit ['.']) part)))

/-- `^[0-9]{1,6}\.[0-9]{1,6}\.[0-9]{1,6}-r[1-9][0-9]{0,5}$` -/
def versionShape : Regex Char :=
  .seq dottedParts (.seq (.lit ['-', 'r'])
    (.seq (.cls fun c => isDigit c && c ≠ '0') (.upTo 5 (.cls isDigit))))

/-- `^v[0-9]{1,6}\.[0-9]{1,6}\.[0-9]{1,6}$` -/
def tagShape : Regex Char := .seq (.lit ['v']) dottedParts

/-- `'v' + split(value, '-r')[0]` on a version -/
def releaseFor (value : Text) : Text := 'v' :: value.takeWhile (· ≠ '-')

/-- What `begin_request` accepts. -/
def Manifest.Valid (m : Manifest) : Prop :=
  (hexOf 32).accepts m.requestId = true ∧ tagShape.accepts m.releaseTag = true ∧
    versionShape.accepts m.version = true ∧ releaseFor m.version = m.releaseTag ∧ sha m.fileSha256 ∧
    1 ≤ m.fileBytes ∧ m.fileBytes ≤ maximumApkBytes

instance (m : Manifest) : Decidable m.Valid := inferInstanceAs (Decidable (_ ∧ _))

def uploadId (value : Text) : Prop := (tagged "update-upload".toList 32).accepts value = true

instance (value : Text) : Decidable (uploadId value) := inferInstanceAs (Decidable (_ = _))

/-- A chunk that lies in the file. -/
def Chunk.Fits (m : Manifest) (c : Chunk) : Prop :=
  1 ≤ c.bytes ∧ c.bytes ≤ maximumChunkBytes ∧ sha c.sha256 ∧ c.offset + c.bytes ≤ m.fileBytes

instance (m : Manifest) (c : Chunk) : Decidable (c.Fits m) := inferInstanceAs (Decidable (_ ∧ _))

def Candidate.Fits (m : Manifest) (c : Candidate) : Prop :=
  (tagged "candidate".toList 32).accepts c.id = true ∧ sha c.receiptSha256 ∧
    c.version = m.version ∧ c.sha256 = m.fileSha256 ∧ c.bytes = m.fileBytes

instance (m : Manifest) (c : Candidate) : Decidable (c.Fits m) :=
  inferInstanceAs (Decidable (_ ∧ _))

/-- What `upload_record` accepts. -/
def Upload.Valid (sha256 : Text → Text) (value : Upload) : Prop :=
  (uploadId value.id ∧ sha value.owner ∧ sha256 value.principal = value.owner ∧
    integer value.stopIntent ∧ integer value.expiresAtUptimeMs ∧ value.manifest.Valid ∧
    ∀ c ∈ value.verifiedCandidate, c.Fits value.manifest) ∧
  value.nextOffset ≤ value.manifest.fileBytes ∧
  (∀ c ∈ value.pending, c.Fits value.manifest ∧ c.offset = value.nextOffset) ∧
  ∀ c ∈ value.last, c.Fits value.manifest ∧ c.offset + c.bytes = value.nextOffset

instance (sha256 : Text → Text) (value : Upload) : Decidable (value.Valid sha256) :=
  inferInstanceAs (Decidable (_ ∧ _))

/-- The router's part of an upload. The last two fields are history: what the journalled but
uncommitted chunk carried, and the committed chunks with their offsets. -/
structure World where
  record : Upload
  /-- uploads/<id>/payload -/
  payload : Option Text
  /-- base.apk of the candidate, where device_finish moves the payload -/
  archive : Option Text
  /-- the copy of the journal that a running device_finish works on -/
  finishing : Option Upload
  now : ℕ
  bootId : Text
  pendingData : Text
  committed : List (ℕ × Text)
deriving DecidableEq

/-- The committed chunks, one after the other. -/
def World.data (w : World) : Text := (w.committed.map (·.2)).flatten

/-- What becomes of a write of the journal: it fails, it is done, or it is done and the process
dies behind it. -/
inductive Write where
  | lost | stored | cut
deriving DecidableEq

/-- What one call meets outside the upload. -/
structure Outside where
  /-- `current()` and the transaction lock -/
  entry : Except Err Unit
  /-- milliseconds since the call before -/
  elapsed : ℕ
  /-- `principal_current` of the caller: its owner digest -/
  owner : Except Err Text
  /-- the session that began the upload is still current -/
  recordCurrent : Bool
  stopIntent : ℕ
  guard : Except Err Unit
  /-- the journal entry of a dead upload -/
  expire : Write
  unlinked : Bool
  /-- the entry of a chunk found complete in the file -/
  reconcile : Write
  /-- memory before the chunk is taken -/
  admitted : Bool
  pending : Write
  /-- so many bytes of the chunk reach the file -/
  written : ℕ
  /-- the append returned, and memory is left behind it -/
  appended : Bool
  commit : Write
  finish : Write
  candidateId : Text

structure ChunkRequest where
  uploadId : Text
  offset : ℕ
  /-- `b64dec(dataBase64)` -/
  data : Text
  chunkSha256 : Text
deriving DecidableEq

def ChunkRequest.chunk (request : ChunkRequest) : Chunk :=
  ⟨request.offset, request.data.length, request.chunkSha256⟩

variable (sha256 : Text → Text)

def chunkRequest (request : ChunkRequest) : Command Err World Text := do
  ensure (uploadId request.uploadId ∧ integer request.offset ∧ sha request.chunkSha256)
    .updateInvalidRequest
  ensure (1 ≤ request.data.length ∧ request.data.length ≤ maximumChunkBytes ∧
    sha256 request.data = request.chunkSha256) .updatePackageVerificationFailed
  return request.data

/-- A step that is on disk once it is done. -/
def durable (out : Write) (g : World → World) : Command Err World Unit := do
  ensure (out ≠ .lost) .storageError
  modify g
  ensure (out ≠ .cut) .storageError

def store (out : Write) (value : Upload) : Command Err World Upload := do
  durable out fun w => { w with record := value }
  return value

def uploadRecord : Command Err World Upload := do
  let w ← get
  ensure (w.record.Valid sha256) .updatePackageVerificationFailed
  return w.record

def removePayload (o : Outside) : Command Err World Unit := do
  let w ← get
  onlyIf w.payload.isSome do
    ensure (o.unlinked = true) .updatePackageVerificationFailed
    modify fun w => { w with payload := none }

def Upload.fail (value : Upload) (reason : Err) : Upload :=
  { value with phase := .failed, failureReason := some reason }

def expireUpload (o : Outside) : Command Err World Upload := do
  let value ← uploadRecord sha256
  let w ← get
  if value.phase ≠ .finished ∧ value.phase ≠ .expired ∧ value.stopIntent ≠ o.stopIntent then
    store o.expire (value.fail .updateStalePlan)
  else if (value.phase = .receiving ∨ value.phase = .verifying) ∧ o.recordCurrent = false then
    store o.expire (value.fail .updateAuthenticationFailed)
  else if value.bootId = w.bootId ∧ w.now ≤ value.expiresAtUptimeMs ∧ value.phase ≠ .expired then
    return value
  else do
    removePayload o
    store o.expire { value with phase := .expired }

def requireUpload (id : Text) (o : Outside) : Command Err World Upload := do
  let owner ← o.owner
  let value ← expireUpload sha256 o
  ensure (value.id = id ∧ value.owner = owner) .updateAuthenticationFailed
  ensure (value.phase ≠ .expired) .updateStalePlan
  ensure (value.phase ≠ .failed) (value.failureReason.getD .updatePackageVerificationFailed)
  let w ← get
  ensure (value.stopIntent = o.stopIntent ∧ value.bootId = w.bootId) .updateStalePlan
  return value

/-- The journal entry that commits the pending chunk. -/
def Upload.commit (value : Upload) (c : Chunk) : Upload :=
  { value with last := some c, nextOffset := c.offset + c.bytes, pending := none }

def commitChunk (value : Upload) (c : Chunk) (w : World) : World :=
  { w with record := value.commit c, committed := w.committed ++ [(c.offset, w.pendingData)] }

def reconcileChunk (out : Write) (value : Upload) : Command Err World Upload := do
  if value.phase = .finished then return value
  else do
    let w ← get
    let some file := w.payload | throw .updatePackageVerificationFailed
    ensure (file.length ≤ value.manifest.fileBytes) .updatePackageVerificationFailed
    match value.pending with
    | some c =>
      if file.length = c.offset then return value
      else do
        ensure (file.length = c.offset + c.bytes) .updatePackageVerificationFailed
        ensure (sha256 ((file.drop c.offset).take c.bytes) = c.sha256)
          .updatePackageVerificationFailed
        durable out (commitChunk value c)
        return value.commit c
    | none => do
      ensure (file.length = value.nextOffset) .updatePackageVerificationFailed
      return value

/-- Every call finds its time. -/
def enter (o : Outside) : Command Err World Unit := do
  modify fun w => { w with now := w.now + o.elapsed }
  o.entry

def journalChunk (o : Outside) (value : Upload) (request : ChunkRequest) :
    Command Err World Upload := do
  let value := { value with pending := some request.chunk }
  durable o.pending fun w => { w with record := value, pendingData := request.data }
  return value

def appendChunk (o : Outside) (data : Text) : Command Err World Unit := do
  modify fun w => { w with payload := w.payload.map (· ++ data.take o.written) }
  ensure (data.length ≤ o.written ∧ o.appended = true) .updateNoSpace

/-- What device_chunk does on the reconciled journal. -/
def receiveChunk (request : ChunkRequest) (data : Text) (o : Outside) (value : Upload) :
    Command Err World ℕ := do
  ensure (value.phase = .receiving) .updateStalePlan
  if value.last = some request.chunk then return value.nextOffset
  else do
    ensure (request.offset = value.nextOffset ∧
      request.offset + data.length ≤ value.manifest.fileBytes) .updateStalePlan
    ensure (o.admitted = true) .updateNoSpace
    let value ← journalChunk o value request
    appendChunk o data
    let value ← reconcileChunk sha256 o.commit value
    return value.nextOffset

/-- device_chunk: the next offset. -/
def deviceChunk (request : ChunkRequest) (o : Outside) : Command Err World ℕ := do
  let data ← chunkRequest sha256 request
  enter o
  o.guard
  let value ← requireUpload sha256 request.uploadId o
  let value ← reconcileChunk sha256 o.reconcile value
  receiveChunk sha256 request data o value

/-- The payload is the candidate's already, or about to be. -/
def Upload.staged (value : Upload) : Bool :=
  value.phase = .finished || value.phase = .verifying && value.verifiedCandidate.isSome

def settled (o : Outside) (value : Upload) : Command Err World Upload :=
  if value.staged then pure value else reconcileChunk sha256 o.reconcile value

/-- device_status: the next offset, and whether that is all. -/
def deviceStatus (id : Text) (o : Outside) : Command Err World (ℕ × Bool) := do
  ensure (uploadId id) .updateInvalidRequest
  enter o
  let value ← requireUpload sha256 id o
  let value ← settled sha256 o value
  return (value.nextOffset, value.nextOffset = value.manifest.fileBytes)

/-- The first transaction of device_finish. What follows works on the copy it returns. -/
def deviceFinish (id : Text) (o : Outside) : Command Err World Unit := do
  ensure (uploadId id) .updateInvalidRequest
  enter o
  o.guard
  let value ← requireUpload sha256 id o
  if value.staged then modify fun w => { w with finishing := some value }
  else do
    let value ← reconcileChunk sha256 o.reconcile value
    ensure (value.phase = .receiving ∧ value.nextOffset = value.manifest.fileBytes)
      .updateStalePlan
    let value := { value with phase := .verifying, candidateId := some o.candidateId }
    durable o.finish fun w => { w with record := value }
    modify fun w => { w with finishing := some value }

inductive Act where
  | chunk (request : ChunkRequest) (o : Outside)
  | status (id : Text) (o : Outside)
  | finish (id : Text) (o : Outside)
  | verified (candidate : Candidate)
  | moved
  | finished
  | failed (reason : Err)
  | die

def Upload.verified (value : Upload) (candidate : Candidate) : Upload :=
  { value with verifiedCandidate := some candidate }

/-- The calls on one upload, one after the other, and the later transactions of the device_finish
that is running, between them. -/
inductive Step : World → Act → World → Prop
  | chunk {w : World} {request : ChunkRequest} {o : Outside} :
    Step w (.chunk request o) (exec (deviceChunk sha256 request o) w).2
  | status {w : World} {id : Text} {o : Outside} :
    Step w (.status id o) (exec (deviceStatus sha256 id o) w).2
  /-- the update lock admits one at a time -/
  | finish {w : World} {id : Text} {o : Outside} (idle : w.finishing = none) :
    Step w (.finish id o) (exec (deviceFinish sha256 id o) w).2
  | verified {w : World} {value : Upload} {candidate : Candidate}
    (running : w.finishing = some value) (first : value.verifiedCandidate = none)
    (fits : candidate.Fits value.manifest) :
    Step w (.verified candidate)
      { w with record := value.verified candidate, finishing := some (value.verified candidate) }
  | moved {w : World} {value : Upload} {file : Text} (running : w.finishing = some value)
    (staged : value.verifiedCandidate ≠ none) (source : w.payload = some file)
    (free : w.archive = none) (digest : sha256 file = value.manifest.fileSha256) :
    Step w .moved { w with payload := none, archive := some file }
  | finished {w : World} {value : Upload} (running : w.finishing = some value)
    (staged : value.verifiedCandidate ≠ none) (source : w.payload = none)
    (target : w.archive ≠ none) :
    Step w .finished { w with record := { value with phase := .finished }, finishing := none }
  | failed {w : World} {value : Upload} {reason : Err} (running : w.finishing = some value) :
    Step w (.failed reason) { w with record := value.fail reason, finishing := none }
  | die {w : World} : Step w .die { w with finishing := none }

/-- What device_begin has written: nothing received yet, and an empty payload. -/
structure Begun (w : World) : Prop where
  valid : w.record.Valid sha256
  phase : w.record.phase = .receiving
  nextOffset : w.record.nextOffset = 0
  last : w.record.last = none
  pending : w.record.pending = none
  bootId : w.record.bootId = w.bootId
  payload : w.payload = some []
  archive : w.archive = none
  finishing : w.finishing = none
  committed : w.committed = []

end Foxhole.RamUpload
