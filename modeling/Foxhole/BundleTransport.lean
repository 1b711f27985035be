import Foxhole.Bundle

/-! The reader of a bundle transport: bundle-transport-model.uc, and the extraction of
bundle-transport.uc. -/
namespace Foxhole.Bundle
open Check Text Address Blocks

/-- The two ways to die: `reject` of the model and `reject` of the operation. -/
inductive Failure where
  | invalidTransport | invalidOperation
deriving DecidableEq

abbrev Checked (α : Type) := Except Failure α

/-! bundle-transport-model.uc -/

/-- `exact(value, fields)`. The keys of an object are distinct. -/
def exact (value : Json) (fields : List Text) : Checked Unit :=
  match value.members? with
  | none => .error .invalidTransport
  | some members => require (members.length = fields.length ∧
      ∀ key ∈ members.map Prod.fst, key ∈ fields) .invalidTransport

/-- `number(value, maximum)`: the number, when there is one in the range. -/
def number (value : Json) (maximum : ℕ) : Option ℕ :=
  match value.int? with
  | none => none
  | some n => if 0 ≤ n ∧ n ≤ maximum then some n.toNat else none

/-- `hash(value)`: the digest, when there is one. -/
def hash (value : Json) : Option Text := value.string?.filter hashShape.accepts

def logicalName (value : Text) : Bool := nameShape.accepts value

/-- One line of a manifest. A name that is there already is there in lower case too. -/
def manifestLine (folded : List Text) (line : Text) : Checked (Text × Text) :=
  match matchLine line with
  | none => .error .invalidTransport
  | some entry => do
    require (lc entry.name ∉ folded) .invalidTransport
    return (entry.name, entry.sha256)

/-- `manifest(raw)` -/
def manifest (raw : Text) : Checked (List (Text × Text)) := do
  require (raw ≠ [] ∧ raw.length ≤ 1048576) .invalidTransport
  let result ← scan (fun row => [lc row.1]) manifestLine []
    ((raw.splitOn '\n').filter fun line => line ≠ [])
  require (result ≠ []) .invalidTransport
  return result

structure ArchiveRow where
  file : Text
  sha256 : Text
  bytes : ℕ
deriving DecidableEq

/-- A member of the archive: an entry under its derived name. -/
structure Member where
  member : Text
  name : Text
  sha256 : Text
  bytes : ℕ
deriving DecidableEq

/-- What `descriptor` returns. The entries are the members by their own names. -/
structure Descriptor where
  archive : ArchiveRow
  members : List Member
  totalBytes : ℕ
deriving DecidableEq

/-- The names that an entry must not have in any case. -/
def FOLDED : List Text :=
  ["sha256sums", "sha256sums.asc", "bundle-transport.json", "native-install.tar"].map String.toList

/-- What the loop over the entries has met: a name in lower case, or a member. -/
inductive Met where
  | name (folded : Text)
  | member (member : Text)
deriving DecidableEq

/-- One entry of the descriptor. -/
def descriptorEntry (sums : List (Text × Text)) (memberDigest : Text → Checked Text)
    (seen : List Met) (entry : Text × Json) : Checked Member := do
  let name := entry.1
  exact entry.2 ["sha256".toList, "bytes".toList]
  require (logicalName name = true ∧ .name (lc name) ∉ seen ∧ lc name ∉ FOLDED) .invalidTransport
  let sha256 ← (hash (entry.2.get "sha256".toList)).elim (.error .invalidTransport) .ok
  require (sums.lookup name = some sha256) .invalidTransport
  let bytes ← (number (entry.2.get "bytes".toList) 134217728).elim (.error .invalidTransport) .ok
  let digest ← memberDigest name
  require (.member ("f-".toList ++ digest) ∉ seen) .invalidTransport
  return ⟨"f-".toList ++ digest, name, sha256, bytes⟩

/-- The least length of an archive with these members. -/
def minimum (members : List Member) : ℕ :=
  1024 + (members.map fun row => 512 + (row.bytes + 511) / 512 * 512).sum

/-- `descriptor(value, sums, member_digest)` -/
def descriptor (value : Json) (sums : List (Text × Text)) (memberDigest : Text → Checked Text) :
    Checked Descriptor := do
  exact value ["schema".toList, "archive".toList, "entries".toList]
  let archive := value.get "archive".toList
  exact archive ["file".toList, "sha256".toList, "bytes".toList]
  require ((value.get "schema".toList).int? = some 1 ∧
    (archive.get "file".toList).string? = some "native-install.tar".toList) .invalidTransport
  let sha256 ← (hash (archive.get "sha256".toList)).elim (.error .invalidTransport) .ok
  require (sums.lookup "native-install.tar".toList = some sha256) .invalidTransport
  let bytes ← (number (archive.get "bytes".toList) 536870912).elim (.error .invalidTransport) .ok
  require (1024 ≤ bytes ∧ bytes % 512 = 0) .invalidTransport
  let entries ← (value.get "entries".toList).members?.elim (.error .invalidTransport) .ok
  require (entries ≠ [] ∧ entries.length ≤ 1024) .invalidTransport
  let members ← scan (fun row => [.name (lc row.name), .member row.member])
    (descriptorEntry sums memberDigest) [] entries
  require ((members.map (·.bytes)).sum ≤ 2147483648 ∧ minimum members ≤ bytes ∧
    bytes ≤ minimum members + 10240) .invalidTransport
  return ⟨⟨"native-install.tar".toList, sha256, bytes⟩, members, (members.map (·.bytes)).sum⟩

/-- `canonical_descriptor(value)`. It reads what `descriptor` has found in the value. -/
def canonicalDescriptor (value : Descriptor) : Text :=
  let rows := (value.members.insertionSort (·.name ≤ ·.name)).map fun row =>
    '"' :: row.name ++ "\":\x7b\"bytes\":".toList ++ decimal row.bytes ++ ",\"sha256\":\"".toList ++
      row.sha256 ++ "\"\x7d".toList
  "\x7b\"archive\":\x7b\"bytes\":".toList ++ decimal value.archive.bytes ++
    ",\"file\":\"native-install.tar\",\"sha256\":\"".toList ++ value.archive.sha256 ++
    "\"\x7d,\"entries\":\x7b".toList ++ [','].intercalate rows ++ "\x7d,\"schema\":1\x7d".toList ++
    ['\n']

def zeros (raw : Text) : Bool := raw.all fun c => c.toNat = 0

def substr (raw : Text) (start length : ℕ) : Text := (raw.drop start).take length

/-- A byte of a header with its place; those of the sum itself count as blanks. -/
def headerByte (x : Char × ℕ) : ℕ := if 148 ≤ x.2 ∧ x.2 < 156 then 32 else x.1.toNat

/-- The sum of the bytes of a header. -/
def headerSum (raw : Text) : ℕ := (raw.zipIdx.map headerByte).sum

/-- The fields of a header before its sum is looked at. -/
def HeaderFields (raw : Text) (row : Member) : Prop :=
  substr raw 66 34 = nulls 34 ∧
  substr raw 100 8 = "0000644".toList ++ [nul] ∧
  substr raw 108 16 = "0000000".toList ++ nul :: "0000000".toList ++ [nul] ∧
  substr raw 124 12 = octal 11 row.bytes ++ [nul] ∧
  substr raw 136 12 = "00000000000".toList ++ [nul] ∧
  (substr raw 156 1 = ['0'] ∨ substr raw 156 1 = [nul]) ∧
  zeros (substr raw 157 100) = true ∧
  substr raw 257 8 = "ustar".toList ++ nul :: "00".toList ∧
  zeros (substr raw 265 64) = true ∧
  zeros (substr raw 329 16) = true ∧
  zeros (substr raw 345 167) = true

instance (raw : Text) (row : Member) : Decidable (HeaderFields raw row) :=
  inferInstanceAs (Decidable (_ ∧ _))

/-- `header(raw, members)` -/
def header (raw : Text) (members : List Member) : Checked Member := do
  require (raw.length = 512) .invalidTransport
  let name := substr raw 0 66
  let row ← (members.find? (·.member = name)).elim (.error .invalidTransport) .ok
  require (HeaderFields raw row) .invalidTransport
  require (substr raw 148 8 = octal 6 (headerSum raw) ++ [nul, ' ']) .invalidTransport
  return row

/-- One line of the plan: an entry of the transport, or nothing to it. A field that is missing
reads as the key `null`. -/
def selectionLine (members : List Member) (selected : List Member) (line : Text) :
    Checked (List Member) :=
  let fields := line.splitOn ' '
  match members.find? fun row => row.name = fields.getD 1 "null".toList with
  | none => .ok selected
  | some row => do
    require (fields.length = 4 ∧ fields[2]? = some row.sha256) .invalidTransport
    let size := fields.getD 3 []
    require (size ≠ [] ∧ size.length ≤ 10 ∧ (∀ c ∈ size, isDigit c = true) ∧
      decimalValue size = row.bytes ∧ row ∉ selected) .invalidTransport
    return selected ++ [row]

/-- `selection(raw, value)` -/
def selection (raw : Text) (value : Descriptor) : Checked (List Member) := do
  require (raw.length ≤ 1048576) .invalidTransport
  ((raw.splitOn '\n').filter fun line => line ≠ []).foldlM (selectionLine value.members) []

/-! bundle-transport.uc -/

structure Dev where
  major : Field ℤ
  minor : Field ℤ
deriving DecidableEq

/-- What `lstat` says of a file, and what is in it. -/
structure Node where
  isFile : Bool := true
  uid : ℕ := 0
  gid : ℕ := 0
  nlink : ℕ := 1
  mode : ℕ := 0o600
  inode : ℕ := 0
  mtime : ℕ := 0
  ctime : ℕ := 0
  dev : Field Dev
  content : Text
deriving DecidableEq

/-- The files below the stage. -/
abbrev Stage := Text → Option Node

/-- What is not written here: the digest, the JSON reader, and the data of a new file. -/
structure Env where
  sha : Text → Text
  json : Text → Option Json
  fresh : Stage → Text → Node

/-- `regular(path, maximum, empty)` -/
def regularNode (stage : Stage) (path : Text) (maximum : ℕ) (empty : Bool) : Checked Node :=
  match stage path with
  | none => .error .invalidOperation
  | some info => do
    require (info.isFile = true ∧ info.uid = 0 ∧ info.nlink = 1 ∧ info.mode &&& 0o022 = 0 ∧
      info.content.length ≤ maximum ∧ (empty = true ∨ info.content ≠ [])) .invalidOperation
    return info

/-- `raw(path, maximum)` -/
def raw (stage : Stage) (path : Text) (maximum : ℕ) : Checked Text := do
  let info ← regularNode stage path maximum false
  return info.content

/-- `/.bundle-hash` -/
def hashPath : Text := ".bundle-hash".toList

/-- `hash_stream`, what is written to it, and `finish_hash`, which takes the file away again. -/
def hashed (env : Env) (stage : Stage) (bytes : Text) (expected : Option Text) : Checked Unit :=
  require (stage hashPath = none ∧ some (env.sha bytes) = expected) .invalidOperation

def memberDigest (env : Env) (name : Text) : Checked Text := do
  require (logicalName name = true) .invalidOperation
  require (hashShape.accepts (env.sha name) = true) .invalidOperation
  return env.sha name

/-- `settings(root)` -/
def settings (env : Env) (stage : Stage) : Checked Descriptor := do
  let sums ← manifest (← raw stage "SHA256SUMS".toList 1048576)
  let text ← raw stage "bundle-transport.json".toList 1048576
  hashed env stage text (sums.lookup "bundle-transport.json".toList)
  let parsed ← (env.json text).elim (.error .invalidOperation) .ok
  let value ← descriptor parsed sums (memberDigest env)
  require (text = canonicalDescriptor value) .invalidOperation
  return value

/-- `same_identity(before, after)`, for the members that are there to be compared. -/
def sameIdentity (before after : Node) : Bool :=
  match before.dev, after.dev with
  | .value ⟨.value major, .value minor⟩, .value dev =>
    0 ≤ major && 0 ≤ minor && dev = ⟨.value major, .value minor⟩ &&
      before.inode = after.inode && before.content.length = after.content.length &&
      before.mode = after.mode && before.uid = after.uid && before.gid = after.gid &&
      before.nlink = after.nlink && before.mtime = after.mtime && before.ctime = after.ctime
  | _, _ => false

/-- `read_exact(input, bytes)` -/
def read {α : Type} (got : Option α) : Checked α := got.elim (.error .invalidOperation) .ok

/-- How far `extract` is: what is left of the archive, the members met, the names written. -/
structure Progress where
  input : Text
  seen : List Text
  written : List Text
  stage : Stage

/-- A file made with mode 0600 by root. -/
def placed (env : Env) (stage : Stage) (path content : Text) : Stage :=
  Function.update stage path
    (some { env.fresh stage path with
      isFile := true, uid := 0, nlink := 1, mode := 0o600, content := content })

/-- One member after its header block: the body is hashed, and written when it is selected. -/
def extractMember (env : Env) (selected : List Member) (row : Member) (p : Progress) :
    Checked Progress := do
  require (row.member ∉ p.seen) .invalidOperation
  let chosen := row.name ∈ selected.map (·.name)
  require (chosen → p.stage row.name = none) .invalidOperation
  let (bytes, input) ← read (readAll 65535 row.bytes p.input)
  hashed env p.stage bytes (some row.sha256)
  let stage := if chosen then placed env p.stage row.name bytes else p.stage
  require (chosen → (regularNode stage row.name row.bytes (row.bytes = 0)).isOk) .invalidOperation
  let (pad, input) ← read (readExact (padding 512 row.bytes) input)
  require (zeros pad = true) .invalidOperation
  return ⟨input, p.seen ++ [row.member],
    if chosen then p.written ++ [row.name] else p.written, stage⟩

/-- What comes after the first empty block: a second one, and at most a record of zeros. -/
def extractTrailer (members : List Member) (size consumed : ℕ) (p : Progress) :
    Checked Progress := do
  require (consumed + 512 ≤ size) .invalidOperation
  let (block, input) ← read (readExact 512 p.input)
  require (zeros block = true) .invalidOperation
  require (size - (consumed + 512) ≤ 10240 ∧ p.seen.length = members.length) .invalidOperation
  let (rest, input) ← read (readAll 65535 (size - (consumed + 512)) input)
  require (zeros rest = true) .invalidOperation
  return { p with input }

/-- The loop of `extract` over the blocks of the archive. -/
def extractFrom (env : Env) (members selected : List Member) (size consumed : ℕ) (p : Progress) :
    Checked Progress :=
  if _h : size < consumed + 512 then .error .invalidOperation
  else do
    let (block, input) ← read (readExact 512 p.input)
    if zeros block then extractTrailer members size (consumed + 512) { p with input }
    else
      let row ← header block members
      let p ← extractMember env selected row { p with input }
      extractFrom env members selected size (consumed + 512 + row.bytes + padding 512 row.bytes) p
termination_by size - consumed
decreasing_by omega

/-- `/bundle-materialized.list` -/
def listName : Text := "bundle-materialized.list".toList

/-- `extract(root, value)` -/
def extract (env : Env) (value : Descriptor) (stage : Stage) : Checked Stage := do
  let before ← regularNode stage "native-install.tar".toList 536870912 false
  require (before.content.length = value.archive.bytes) .invalidOperation
  let (bytes, _) ← read (readAll 65535 before.content.length before.content)
  hashed env stage bytes (some value.archive.sha256)
  let selected ← selection (← raw stage "plan.list".toList 1048576) value
  let p ← extractFrom env value.members selected before.content.length 0
    ⟨before.content, [], [], stage⟩
  let after ← regularNode p.stage "native-install.tar".toList 536870912 false
  require (sameIdentity before after = true) .invalidOperation
  require (p.written.length = selected.length) .invalidOperation
  require (p.stage listName = none) .invalidOperation
  return placed env p.stage listName (['\n'].intercalate p.written ++ ['\n'])

end Foxhole.Bundle
