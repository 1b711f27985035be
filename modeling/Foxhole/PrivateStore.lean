import Foxhole.Lib.Threads
import Foxhole.RamSwitch
import Mathlib.Data.List.Infix

/-! The private store: directories and files only root may use, a file written beside its place
and renamed into it. -/
namespace Foxhole.PrivateStore
open Text Threads

inductive Kind where
  | file | directory | link | other
deriving DecidableEq

/-- What `lstat` tells. -/
structure Info where
  type : Kind
  uid : ℕ
  nlink : ℕ
  mode : ℕ
  inode : ℕ
  size : ℕ
deriving DecidableEq

def directoryMetadata (info : Option Info) : Bool :=
  info.any fun info => info.type = .directory ∧ info.uid = 0 ∧ info.mode &&& 0o077 = 0 ∧
    0 < info.inode

def fileMetadata (info : Option Info) : Bool :=
  info.any fun info => info.type = .file ∧ info.uid = 0 ∧ info.nlink = 1 ∧
    info.mode &&& 0o077 = 0 ∧ 0 < info.inode

def root (top : Text) : Regex Char := .lit ('/' :: top ++ "/foxhole".toList)

/-- `^\/(tmp|etc)\/foxhole(\/[a-zA-Z0-9_.-]+)*$` -/
def pathShape : Regex Char :=
  .seq (.alt (root "tmp".toList) (root "etc".toList)) (.star (.seq (.lit ['/'])
    (.plus (.cls fun c => isAlnum c || c = '_' || c = '.' || c = '-'))))

/-- `\/(\.|\.\.)(\/|$)` -/
def dotted : Regex Char :=
  let any := .star (.cls fun _ => true)
  .seq any (.seq (.lit ['/']) (.seq (.alt (.lit ['.']) (.lit ['.', '.']))
    (.alt .eps (.seq (.lit ['/']) any))))

def allowed (path : Text) : Bool := pathShape.accepts path && !dotted.accepts path

/-- What the store asks of the file system. A file that was opened is the number of its node. -/
inductive Op where
  | lstat (path : Text)
  | mkdir (path : Text)
  | random (n : ℕ)
  | create (path : Text)
  | write (file : ℕ) (raw : Text)
  | flush (file : ℕ)
  | close (file : ℕ)
  | rename (old new : Text)
  | unlink (path : Text)
  | openRead (path : Text)
  | fetch (file : ℕ) (start n : ℕ)
deriving DecidableEq

abbrev Answer : Op → Type
  | .lstat _ => Option Info
  | .mkdir _ => Bool
  | .random _ => Option (List UInt8)
  | .create _ => Option ℕ
  | .write .. => Option ℕ
  | .flush _ => Bool
  | .close _ => Unit
  | .rename .. => Bool
  | .unlink _ => Bool
  | .openRead _ => Option ℕ
  | .fetch .. => Option Text

abbrev Io := ExceptT Err (Prog Op Answer)

/-- Ask the file system. -/
def ask (o : Op) : Io (Answer o) := ExceptT.lift (perform o)

/-- `die('storage_error')` unless it holds. -/
def ensure (p : Prop) [Decidable p] : Io Unit := if p then pure () else throw .storageError

/-- The last component cut off. -/
def dirname (path : Text) : Text := RamSwitch.dirname path

theorem one_lt_length {path : Text} (h : allowed path = true) : 1 < path.length := by
  simp only [allowed, Bool.and_eq_true] at h
  obtain ⟨u, v, rfl, hu, -⟩ := Regex.mem_lang_seq.1 (Regex.accepts_iff.1 h.1)
  rcases (Language.mem_add _ _ _).1 hu with hu | hu
  · rw [Regex.lang_lit.1 hu]
    simp
  · rw [Regex.lang_lit.1 hu]
    simp

theorem dirname_length {path : Text} (h : 1 < path.length) :
    (dirname path).length < path.length := by
  have hdrop : (path.reverse.dropWhile (· ≠ '/')).length ≤ path.length := by
    simpa using (List.dropWhile_sublist (p := (· ≠ '/')) (l := path.reverse)).length_le
  unfold dirname RamSwitch.dirname
  split
  · exact h
  · next hne =>
    rw [List.length_reverse, List.length_tail]
    omega

/-- The directory is made if it is missing. -/
def ownDirectory (path : Text) : Io (Option Info) := do
  let mut info : Option Info ← ask (.lstat path)
  if info = none then
    let made : Bool ← ask (.mkdir path)
    ensure made
    info ← ask (.lstat path)
  ensure (directoryMetadata info)
  return info

def directory (path : Text) : Io (Option Info) :=
  if _h : allowed path then
    if path ≠ "/tmp/foxhole".toList ∧ path ≠ "/etc/foxhole".toList then do
      let _ ← directory (dirname path)
      ownDirectory path
    else ownDirectory path
  else throw .storageError
termination_by path.length
decreasing_by exact dirname_length (one_lt_length _h)

def target (path : Text) : Io Unit := do
  ensure (allowed path)
  let _ ← directory (dirname path)
  let info : Option Info ← ask (.lstat path)
  ensure (info = none ∨ fileMetadata info)

/-- What is left of a file up to `n` characters more, `acc` having been read. -/
def readRest (file n : ℕ) (acc : Text) : Io (Option Text) :=
  if n = 0 then pure (some acc) else do
    let chunk : Option Text ← ask (.fetch file acc.length n)
    match chunk with
    | none => pure none
    | some [] => pure (some acc)
    | some (c :: chunk) => readRest file (n - (chunk.length + 1)) (acc ++ c :: chunk)
termination_by n

/-- `fs.readfile(path, limit)` -/
def readfile (path : Text) (limit : ℕ) : Io (Option Text) := do
  let file : Option ℕ ← ask (.openRead path)
  match file with
  | none => pure none
  | some file => readRest file limit []

def read (path : Text) (limit : ℕ) : Io (Option Text) := do
  target path
  let before : Option Info ← ask (.lstat path)
  match before with
  | none => return none
  | some before => do
    ensure (before.size ≤ limit)
    let raw ← readfile path (limit + 1)
    let after : Option Info ← ask (.lstat path)
    match raw, after with
    | some raw, some after => do
      ensure (fileMetadata (some after) ∧ before.inode = after.inode ∧
        raw.length = after.size ∧ raw.length ≤ limit)
      return some raw
    | _, _ => throw .storageError

def hexDigit (n : ℕ) : Char := if n < 10 then Char.ofNat (48 + n) else Char.ofNat (87 + n)

def hexenc (raw : List UInt8) : Text :=
  raw.flatMap fun b => [hexDigit (b.toNat / 16), hexDigit (b.toNat % 16)]

def temporary (path : Text) (random : List UInt8) : Text :=
  path ++ ".new-".toList ++ hexenc random

/-- All of it is written and flushed. -/
def fill (file : ℕ) (raw : Text) : Io Unit := do
  let written : Option ℕ ← ask (.write file raw)
  ensure (written = some raw.length)
  let flushed : Bool ← ask (.flush file)
  ensure flushed

/-- The file is closed too when filling it fails. -/
def filled (file : ℕ) (raw : Text) : Io Unit :=
  tryCatch (fill file raw) fun e => do
    let _ ← ask (.close file)
    throw e

/-- The file is filled, closed and renamed into its place. -/
def publish (path temporary : Text) (file : ℕ) (raw : Text) : Io Unit := do
  filled file raw
  let _ ← ask (.close file)
  target path
  let renamed : Bool ← ask (.rename temporary path)
  ensure renamed

def write (path raw : Text) : Io Unit := do
  target path
  let random : Option (List UInt8) ← ask (.random 12)
  match random with
  | none => throw .storageError
  | some random => do
    ensure (random.length = 12)
    let file : Option ℕ ← ask (.create (temporary path random))
    match file with
    | none => throw .storageError
    | some file =>
      tryCatch (publish path (temporary path random) file raw) fun _ => do
        let _ ← ask (.unlink (temporary path random))
        throw .storageError

end Foxhole.PrivateStore
