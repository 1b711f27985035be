import Foxhole.Lib.Check
import Foxhole.Lib.Walk
import Foxhole.Ucode

/-! The inventory of a RAM bootstrap bank, as tools/ram-bootstrap-model.uc checks it. -/
namespace Foxhole.RamBank
open Check Text Walk

/-- Everything that is wrong is one failure. -/
inductive Failure where
  | ramBootstrapValidationFailed
deriving DecidableEq

abbrev Checked (α : Type) := Except Failure α

inductive Kind where
  | directory | file | symlink
deriving DecidableEq

/-- A row as it is read; `exact` says that it is an object with these six members. -/
structure Row where
  exact : Bool := true
  path : Field Text
  kind : Option Kind
  mode : Field ℤ
  bytes : Field ℤ
  sha256 : Field Text
  linkTarget : Field Text
deriving DecidableEq

/-- A row that has passed. -/
structure Entry where
  path : Text
  kind : Kind
  mode : ℤ
  bytes : ℤ
  sha256 : Option Text
  linkTarget : Option Text
deriving DecidableEq

/-- `split(path, '/')` -/
def names (path : Text) : List Text := path.splitOn '/'

/-- `join('/', parts)` -/
def join (parts : List Text) : Text := ['/'].intercalate parts

def dot : Text := ['.']
def dotDot : Text := ['.', '.']

/-- A letter, a digit or one of `_+.,@=:-` and the slash. -/
def isPathChar (c : Char) : Bool := isAlnum c || c ∈ ['_', '+', '.', ',', '@', '=', ':', '/', '-']

def sha (value : Text) : Bool := (hexOf 64).accepts value

def maximumInteger : ℤ := 9007199254740991

/-- `relative`; the last of its patterns finds a name of one or two dots. -/
def relative (value : Text) : Bool :=
  1 ≤ value.length && value.length ≤ 240 && value.all isPathChar && value.head? ≠ some '/' &&
    value.getLast? ≠ some '/' && dot ∉ names value && dotDot ∉ names value

/-- `ssh_host_[A-Za-z0-9_-]*key` -/
def hostKey : Regex Char :=
  .seq (.lit "ssh_host_".toList) (.seq (.star (.cls fun c => isAlnum c || c = '_' || c = '-'))
    (.lit "key".toList))

/-- A name that no image may carry. -/
def secretName (name : Text) : Bool :=
  name ∈ [".local-secrets", "AGENTS.md", "userdata", "id_rsa", "id_ed25519", "authorized_keys",
    "shadow"].map String.toList || hostKey.accepts name

def privateRoot : List Text := ["root", "etc", "foxhole"].map String.toList

def apkCache : List Text := ["root", ".foxhole-apk-cache"].map String.toList

/-- What a row's path has to be: below `root` or `adapters`, and nothing private. -/
def publicPath (path : Text) : Bool :=
  relative path && (names path).head?.any (· ∈ ["root", "adapters"].map String.toList) &&
    !privateRoot.isPrefixOf (names path) && !apkCache.isPrefixOf (names path) &&
    (names path).all fun name => !secretName name

def nativeCaAlias : Text := "root/etc/ssl/cert.pem".toList
def nativeCaTarget : Text := "/etc/ssl/certs/ca-certificates.crt".toList
def nativeCaFile : Text := "root/etc/ssl/certs/ca-certificates.crt".toList

/-- One round of the loop of `link`. -/
def linkPiece (parts : List Text) (piece : Text) : Checked (List Text) :=
  if piece = dot then .ok parts
  else if piece = dotDot then do
    require (¬ parts.length ≤ 1) .ramBootstrapValidationFailed
    return parts.dropLast
  else do
    require (piece ≠ []) .ramBootstrapValidationFailed
    return parts ++ [piece]

/-- The entry a link is meant to be for. -/
def link (path target : Text) : Checked Text := do
  require (1 ≤ target.length ∧ target.length ≤ 240 ∧ target.all isPathChar = true)
    .ramBootstrapValidationFailed
  if target.head? = some '/' then do
    require (path = nativeCaAlias ∧ target = nativeCaTarget) .ramBootstrapValidationFailed
    return nativeCaFile
  else do
    let parts ← (names target).foldlM linkPiece (names path).dropLast
    require (parts.head? = (names path).head?) .ramBootstrapValidationFailed
    return join parts

/-- `row.mode & 0o022` -/
def writable (mode : ℤ) : Bool := mode.toNat &&& 18 ≠ 0

/-- The part of the check that depends on the type. -/
def checkKind (path : Text) (kind : Kind) (mode bytes : ℤ) (sha256 linkTarget : Field Text) :
    Checked Entry :=
  match kind with
  | .directory => do
    require (writable mode = false ∧ sha256 = .missing ∧ linkTarget = .missing ∧ bytes = 0)
      .ramBootstrapValidationFailed
    return ⟨path, .directory, mode, bytes, none, none⟩
  | .file => do
    require (writable mode = false ∧ sha256.value?.any sha = true ∧ linkTarget = .missing)
      .ramBootstrapValidationFailed
    return ⟨path, .file, mode, bytes, sha256.value?, none⟩
  | .symlink => do
    let .value target := linkTarget | throw .ramBootstrapValidationFailed
    require (mode = 511 ∧ sha256 = .missing ∧ bytes = target.length) .ramBootstrapValidationFailed
    let _ ← link path target
    return ⟨path, .symlink, mode, bytes, none, some target⟩

def checkRow (seen : List Text) (row : Row) : Checked Entry := do
  require (row.exact = true) .ramBootstrapValidationFailed
  let .value path := row.path | throw .ramBootstrapValidationFailed
  let .value mode := row.mode | throw .ramBootstrapValidationFailed
  let .value bytes := row.bytes | throw .ramBootstrapValidationFailed
  require (publicPath path = true ∧ path ∉ seen ∧ 0 ≤ mode ∧ mode ≤ 511 ∧ 0 ≤ bytes ∧
    bytes ≤ maximumInteger ∧ bytes ≤ 33554432) .ramBootstrapValidationFailed
  let some kind := row.kind | throw .ramBootstrapValidationFailed
  checkKind path kind mode bytes row.sha256 row.linkTarget

/-- `result[path]` -/
def lookup (result : List Entry) (path : Text) : Option Entry :=
  result.find? fun entry => entry.path = path

def isDirectory (result : List Entry) (path : Text) : Bool :=
  (lookup result path).any fun entry => entry.kind = .directory

/-- An entry lies in a directory, and a link is for an entry. -/
def joined (result : List Entry) (entry : Entry) : Checked Unit := do
  let parent := join (names entry.path).dropLast
  require (1 ≤ parent.length → isDirectory result parent = true) .ramBootstrapValidationFailed
  match entry.linkTarget with
  | some target => do
    let found ← link entry.path target
    require ((lookup result found).isSome = true) .ramBootstrapValidationFailed
  | none => pure ()

/-- The alias of the native certificates is for a regular, public file. -/
def checkAlias (result : List Entry) : Checked Unit :=
  match lookup result nativeCaAlias with
  | some entry =>
    if entry.linkTarget = some nativeCaTarget then
      require ((lookup result nativeCaFile).any fun ca =>
        ca.kind = .file && ca.mode = 420 && ca.bytes ≠ 0 && ca.sha256.any sha)
        .ramBootstrapValidationFailed
    else .ok ()
  | none => .ok ()

def total (result : List Entry) : ℤ :=
  ((result.filter fun entry => entry.kind = .file).map (·.bytes)).sum

def files (value : List Row) : Checked (List Entry) := do
  require (3 ≤ value.length ∧ value.length ≤ 8192) .ramBootstrapValidationFailed
  let result ← scan (fun entry => [entry.path]) checkRow [] value
  require (total result ≤ 134217728 ∧ isDirectory result "root".toList = true ∧
    isDirectory result "adapters".toList = true) .ramBootstrapValidationFailed
  result.forM (joined result)
  checkAlias result
  return result

/-! The tree that the entries make. -/

/-- A name of a link's target, as the kernel reads it. -/
def piece (name : Text) : Piece Text :=
  if name = dot then .here else if name = dotDot then .up else .name name

def pieces (target : Text) : List (Piece Text) := (names target).map piece

/-- Targets that start at the top of the machine leave the bank. -/
def Entry.node (entry : Entry) : Node Text :=
  match entry.kind with
  | .directory => .directory
  | .file => .file
  | .symlink => .link (entry.linkTarget.bind fun target =>
      if target.head? = some '/' then none else some (pieces target))

def tree (result : List Entry) : Walk.Tree Text := fun place =>
  (result.find? fun entry => names entry.path = place).map Entry.node

/-- The symbolic links the kernel follows in one walk. -/
def maxLinks : ℕ := 40

end Foxhole.RamBank
