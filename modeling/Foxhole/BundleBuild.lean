import Foxhole.Bundle

/-! The producer of a bundle transport, build-bundle-transport.py, with the parts of tarfile and
json it uses. -/
namespace Foxhole.Bundle
open Check Text Address Blocks

/-! json.dumps with sorted keys and without blanks. -/

def hexDigit (n : ℕ) : Char := (Nat.toDigits 16 n).headD '0'

/-- How a letter stands in a string: ASCII, with escapes. -/
def escape (c : Char) : Text :=
  if c = '"' ∨ c = '\\' then ['\\', c]
  else if 32 ≤ c.toNat ∧ c.toNat < 127 then [c]
  else "\\u".toList ++ [hexDigit (c.toNat / 4096 % 16), hexDigit (c.toNat / 256 % 16),
    hexDigit (c.toNat / 16 % 16), hexDigit (c.toNat % 16)]

def quote (t : Text) : Text := '"' :: t.flatMap escape ++ ['"']

def join (parts : List Text) : Text := [','].intercalate parts

/-- `sorted(rows.items())` where no two keys are the same. -/
def sortedItems {α : Type} (rows : List (Text × α)) : List (Text × α) :=
  rows.insertionSort (·.1 ≤ ·.1)

mutual

def Json.dumps : Json → Text
  | .null => "null".toList
  | .bool b => if b then "true".toList else "false".toList
  | .int n => if n < 0 then '-' :: decimal n.natAbs else decimal n.natAbs
  | .string t => quote t
  | .array items => '[' :: join (dumpsItems items) ++ [']']
  | .object members =>
    '{' :: join ((sortedItems (dumpsMembers members)).map fun row => quote row.1 ++ ':' :: row.2) ++
      ['}']

def dumpsItems : List Json → List Text
  | [] => []
  | item :: items => item.dumps :: dumpsItems items

def dumpsMembers : List (Text × Json) → List (Text × Text)
  | [] => []
  | (key, value) :: members => (key, value.dumps) :: dumpsMembers members

end

/-! tarfile, for regular files in the USTAR format. -/

/-- A text field: cut or filled up with null bytes. -/
def stn (s : Text) (length : ℕ) : Text := s.take length ++ nulls (length - s.length)

/-- A number field: octal digits and a null byte. A number too large for it is an error. -/
def itn (n digits : ℕ) : Option Text :=
  if n < 8 ^ (digits - 1) then some (octal (digits - 1) n ++ [nul]) else none

/-- `tarfile.TarInfo`, with what `build` sets. The type is that of a regular file. -/
structure TarInfo where
  name : Text
  size : ℕ
  mode : ℕ := 0o644
  uid : ℕ := 0
  gid : ℕ := 0
  mtime : ℕ := 0
  uname : Text := []
  gname : Text := []
deriving DecidableEq

/-- The sum of the bytes, with the field of the sum itself taken for blanks. -/
def calcChksums (buf : Text) : ℕ :=
  256 + (((buf.take 148).map Char.toNat).sum + ((buf.drop 156).map Char.toNat).sum)

/-- `_create_header` for a name that fits its field. A regular file leaves the device fields
empty. -/
def createHeader (info : TarInfo) : Option Text := do
  let mode ← itn (info.mode % 0o10000) 8
  let uid ← itn info.uid 8
  let gid ← itn info.gid 8
  let size ← itn info.size 12
  let mtime ← itn info.mtime 12
  let parts := [stn info.name 100, mode, uid, gid, size, mtime, "        ".toList, ['0'],
    stn [] 100, "ustar".toList ++ nul :: "00".toList, stn info.uname 32, stn info.gname 32,
    stn [] 8, stn [] 8, stn [] 155]
  let buf := stn parts.flatten 512
  return buf.take (512 - 364) ++ octal 6 (calcChksums buf) ++ [nul] ++ buf.drop (512 - 357)

/-- `stream.addfile(header, body)`: the header and the body, filled up to a block. -/
def addfile (info : TarInfo) (body : Text) : Option Text := do
  let buf ← createHeader info
  let (bytes, _) ← readExact info.size body
  return buf ++ bytes ++ nulls (padding 512 info.size)

/-- `stream.close()`: two empty blocks, filled up to a record. -/
def close (offset : ℕ) : Text :=
  nulls (512 * 2) ++ nulls (padding 10240 (offset + 512 * 2))

/-! `build` -/

/-- A file of a directory, with what `regular` asks of it. -/
structure File where
  content : Text
  isReg : Bool := true
  nlink : ℕ := 1
  mode : ℕ := 0o644
deriving DecidableEq

abbrev Dir := List (Text × File)

/-- What the producer says when it gives up. -/
inductive BuildError where
  | missing
  | independentFile
  | freshOutput
  | manifestDigest
  | sourceEntries
  | fileDigest
  | exactBundle
  | helperBytes
  | dependencyBank
  | archiveMaximum
  | assetCount
  | diskReserve
  | header
  | paddedLength
  | descriptorMaximum
deriving DecidableEq

/-- What lies around the bundle: the digest, the helpers beside the producer, and the place the
output goes to. -/
structure Host where
  sha : Text → Text
  tool : Text → Text
  outputExists : Bool
  free : ℕ

structure Row where
  sha256 : Text
  bytes : ℕ
deriving DecidableEq

/-- `native-install.tar` -/
def archiveName : Text := "native-install.tar".toList

/-- `bundle-transport.json` -/
def descriptorName : Text := "bundle-transport.json".toList

def sumsName : Text := "SHA256SUMS".toList

def TOOLS : List Text :=
  ["install-compact.sh", "bundle-transport-model.uc", "bundle-transport.uc"].map String.toList

/-- `DEPENDENCY` -/
def dependencyShape : Regex Char :=
  .seq (.lit "apk-".toList) (.seq (hexOf 64) (.lit ".apk".toList))

/-- `path.lstat()`, or the opening of the file. -/
def find (root : Dir) (name : Text) : Except BuildError File :=
  (root.lookup name).elim (.error .missing) .ok

/-- `regular(path, maximum)` -/
def regular (file : File) (maximum : ℕ) : Except BuildError Unit :=
  require (file.isReg = true ∧ file.nlink = 1 ∧ file.mode &&& 0o022 = 0 ∧
    0 < file.content.length ∧ file.content.length ≤ maximum) .independentFile

/-- `read_text('ascii')` makes every line end a newline. -/
def universalNewlines : Text → Text
  | '\r' :: '\n' :: rest => '\n' :: universalNewlines rest
  | '\r' :: rest => '\n' :: universalNewlines rest
  | c :: rest => c :: universalNewlines rest
  | [] => []

/-- The ASCII letters that `splitlines` takes for the end of a line. -/
def isLineEnd (c : Char) : Bool := c.toNat ∈ [10, 11, 12, 13, 28, 29, 30]

/-- `splitlines()`: what follows the last line end is a line when it is not empty. -/
def splitlines (t : Text) : List Text :=
  let parts := t.splitOnP isLineEnd
  if parts.getLast? = some [] then parts.dropLast else parts

/-- The names that a source entry must not have. -/
def RESERVED : List Text :=
  ["SHA256SUMS", "SHA256SUMS.asc", "bundle-transport.json", "native-install.tar"].map String.toList

/-- One line of the manifest of the source. A name that is there already is there in lower case
too. -/
def sourceEntry (host : Host) (root : Dir) (folded : List Text) (line : Text) :
    Except BuildError (Text × Row) := do
  match matchLine line with
  | none => .error .sourceEntries
  | some entry =>
    require (lc entry.name ∉ folded ∧ entry.name ∉ RESERVED) .sourceEntries
    let file ← find root entry.name
    regular file 536870912
    require (host.sha file.content = entry.sha256) .fileDigest
    return (entry.name, ⟨entry.sha256, file.content.length⟩)

/-- The entries of the manifest, in its order. -/
def sourceEntries (host : Host) (root : Dir) (text : Text) :
    Except BuildError (List (Text × Row)) := do
  require (∀ c ∈ text, c.toNat < 128) .sourceEntries
  scan (fun row => [lc row.1]) (sourceEntry host root) [] (splitlines (universalNewlines text))

def isArchived (row : Text × Row) : Bool := dependencyShape.accepts row.1

/-- `tar_bytes` -/
def tarBytes (archived : List (Text × Row)) : ℕ :=
  ((archived.map fun row => 512 + (row.2.bytes + 511) / 512 * 512).sum + 1024 + 10239) / 10240 *
    10240

/-- The members of the archive, in the order of their names. -/
def tarMembers (host : Host) (root : Dir) : List (Text × Row) → Except BuildError Text
  | [] => .ok []
  | (name, row) :: rows => do
    let file ← find root name
    let part ← (addfile { name := "f-".toList ++ host.sha name, size := row.bytes }
      file.content).elim (.error .header) .ok
    let parts ← tarMembers host root rows
    return part ++ parts

/-- The value of bundle-transport.json. -/
def transport (archive : Row) (archived : List (Text × Row)) : Json :=
  .object [
    ("schema".toList, .int 1),
    ("archive".toList, .object [
      ("file".toList, .string archiveName),
      ("sha256".toList, .string archive.sha256),
      ("bytes".toList, .int archive.bytes)]),
    ("entries".toList, .object (archived.map fun row => (row.1, .object [
      ("sha256".toList, .string row.2.sha256),
      ("bytes".toList, .int row.2.bytes)])))]

/-- What `build` writes, and what it returns of it. -/
structure Built where
  output : List (Text × Text)
  originalFlatManifestSha256 : Text
  outerManifestSha256 : Text
  archive : Row
  archivedMembers : ℕ
  actualFlatAssets : ℕ
deriving DecidableEq

/-- The lines of the outer manifest. -/
def outerSums (host : Host) (entries : List (Text × Row)) (archive descriptor : Text) : Text :=
  (sortedItems (entries.map (fun row => (row.1, row.2.sha256)) ++
    [(archiveName, host.sha archive), (descriptorName, host.sha descriptor)])).flatMap fun row =>
      (Entry.mk row.1 row.2).line ++ ['\n']

/-- `shutil.copyfile` of every entry that is not archived. -/
def copies (root : Dir) : List (Text × Row) → Except BuildError (List (Text × Text))
  | [] => .ok []
  | (name, _) :: rows => do
    let file ← find root name
    let rest ← copies root rows
    return (name, file.content) :: rest

def bundleTool (host : Host) (entries : List (Text × Row)) (name : Text) : Prop :=
  (entries.lookup name).map (·.sha256) = some (host.sha (host.tool name))

instance (host : Host) (entries : List (Text × Row)) (name : Text) :
    Decidable (bundleTool host entries name) := inferInstanceAs (Decidable (_ = _))

/-- The checks up to the making of the output directory. They leave the entries. -/
def checkBundle (host : Host) (root : Dir) (expected : Text) :
    Except BuildError (List (Text × Row)) := do
  require (host.outputExists = false ∧ hashShape.accepts expected = true) .freshOutput
  let sums ← find root sumsName
  regular sums 1048576
  require (host.sha sums.content = expected) .manifestDigest
  let entries ← sourceEntries host root sums.content
  require ((∀ file ∈ root, file.1 = sumsName ∨ file.1 ∈ entries.map (·.1)) ∧
    sumsName ∈ root.map (·.1) ∧ ∀ row ∈ entries, row.1 ∈ root.map (·.1)) .exactBundle
  require (∀ name ∈ TOOLS, bundleTool host entries name) .helperBytes
  let archived := entries.filter isArchived
  require (1 ≤ archived.length ∧ archived.length ≤ 1024 ∧
    (∀ row ∈ archived, row.2.bytes ≤ 134217728) ∧
    (archived.map (·.2.bytes)).sum ≤ 2147483648) .dependencyBank
  require (tarBytes archived ≤ 536870912) .archiveMaximum
  require (entries.length - archived.length + 3 < 200) .assetCount
  require (10 * 1024 ^ 3 + tarBytes archived +
    ((entries.filter fun row => !isArchived row).map (·.2.bytes)).sum ≤ host.free) .diskReserve
  return entries

/-- `build(root, expected, output)`. Nothing else writes to the source meanwhile, so the last look
at it finds the digests that the first one found. -/
def build (host : Host) (root : Dir) (expected : Text) : Except BuildError Built := do
  let entries ← checkBundle host root expected
  let archived := entries.filter isArchived
  let members ← tarMembers host root (sortedItems archived)
  let archive := members ++ close members.length
  require (archive.length = tarBytes archived) .paddedLength
  let row := ⟨host.sha archive, archive.length⟩
  let descriptor := (transport row archived).dumps ++ ['\n']
  require (descriptor.length ≤ 1048576) .descriptorMaximum
  let others ← copies root (entries.filter fun row => !isArchived row)
  let sums := outerSums host entries archive descriptor
  let output := (archiveName, archive) :: (descriptorName, descriptor) :: others ++
    [(sumsName, sums)]
  return {
    output
    originalFlatManifestSha256 := expected
    outerManifestSha256 := host.sha sums
    archive := row
    archivedMembers := archived.length
    actualFlatAssets := output.length }

end Foxhole.Bundle
