import Foxhole.HistoryFile

/-! One call of `record`: it reads the old file, writes a new one and replaces the old. -/
namespace Foxhole.History
open Check Json Thinning

variable {α : Type} {json : Text → Option α} {view : α → Option (ℤ × Bool)} {now : ℤ}

/-- The codes that `record` dies with, and what it passes on. -/
inductive RecordError where
  | memoryLow | storage | readFailed | invalid | tooLarge | writeFailed
  | scan (error : ScanError)
  | row (error : PreviewError)
  | sample
deriving DecidableEq

/-- The files: the history, what its compressed copy unpacks to, the preview, and the temporary
files that could not be removed. -/
structure Disk where
  history : Option Text := none
  archive : Option Text := none
  preview : Option Text := none
  leftovers : List Text := []
deriving DecidableEq

/-- How a file is read chunk by chunk. -/
structure Reading where
  reader : Text → List (Option Text)
  reads : ∀ content, Reads content (reader content)

/-- What one call meets. `room` is how many bytes of a temporary file can be written. -/
structure Machine (α : Type) where
  available : Option ℕ
  /-- `store.target(path)` and `file_metadata`, then `fs.open` -/
  target : Bool
  ordinary : Bool
  opens : Bool
  /-- `store.target(archive)`, then that it is an ordinary file that `gzip -dc` gets through -/
  targetArchive : Bool
  unpacks : Bool
  first : Reading
  rewinds : Bool
  again : Reading
  readable : ℕ → ℕ → Bool
  /-- what `sample()` returns, when it returns -/
  sample : Option α
  creates : Bool
  room : ℕ
  flushes : Bool
  /-- `store.target(path)` again, and the file that was read is still there -/
  targetStill : Bool
  unchanged : Bool
  renames : Bool
  unlinks : Bool
  previews : Bool

/-- `history_source`: the bytes that the source reads, if there are any. -/
def historySource (m : Machine α) (disk : Disk) : Except RecordError (Option Text) := do
  require (m.target = true) .storage
  match disk.history, disk.archive with
  | some content, _ => do
    require (m.ordinary = true ∧ 1 ≤ content.length ∧ content.length ≤ maximum) .readFailed
    require (m.opens = true) .readFailed
    return some content
  | none, some content => do
    require (m.targetArchive = true) .storage
    require (m.unpacks = true ∧ content.length ≤ maximum) .readFailed
    require (m.opens = true) .readFailed
    return some content
  | none, none => return none

def recordIndex (json : Text → Option α) (view : α → Option (ℤ × Bool)) (m : Machine α) (now : ℤ) :
    Option Text → Except RecordError (List Entry)
  | none => .ok []
  | some content =>
    match streamIndex json view (m.first.reader content) now
        (some (if m.rewinds then some (m.again.reader content) else none)) with
    | .ok entries => .ok entries
    | .error e => .error (.scan e)

/-- The entries to be written; none when the last sample is fresh. -/
def recordEntries (v : Values α) (view : α → Option (ℤ × Bool)) (m : Machine α) (now : ℤ)
    (force : Bool) (content : Option Text) : Except RecordError (Option (List Entry)) := do
  let entries ← recordIndex v.json view m now content
  if !force && entries.getLast?.any (fun entry => now - entry.t < 14000) then return none
  else
    match m.sample with
    | none => throw .sample
    | some point => do
      require (view point = some (now, true)) .invalid
      let raw := v.print point
      require (raw.length ≤ rowLimit) .tooLarge
      return some (selectEntries (entries ++ [⟨now, 18000, .raw raw⟩]) now)

/-- `file.write(data)`: what the file holds then, and whether all of the data is in it. -/
def put (room : ℕ) (file data : Text) : Text × Bool :=
  (file ++ data.take (room - file.length), decide (file.length + data.length ≤ room))

/-- The loop that writes the rows. -/
def writeRows (v : Values α) (source : Option Opened) (room : ℕ) :
    List Entry → Bool → ℕ → Text → Except RecordError Unit × Text
  | [], _, _, file => (.ok (), file)
  | entry :: entries, first, bytes, file =>
    match entryRaw v source entry with
    | .error e => (.error (.row e), file)
    | .ok raw =>
      let data := (if first then [] else [',', '\n']) ++ raw
      if bytes + data.length > maximum then (.error .writeFailed, file)
      else
        let written := put room file data
        if written.2 then writeRows v source room entries false (bytes + data.length) written.1
        else (.error .writeFailed, written.1)

/-- The temporary file, from its creation to `flush`. -/
def writeHistory (v : Values α) (m : Machine α) (source : Option Opened) (entries : List Entry) :
    Except RecordError Unit × Option Text :=
  if m.creates then
    let opened := put m.room [] ['[']
    if opened.2 then
      match writeRows v source m.room entries true 2 opened.1 with
      | (.error e, file) => (.error e, some file)
      | (.ok (), file) =>
        let closed := put m.room file [']']
        if closed.2 && m.flushes then (.ok (), some closed.1)
        else (.error .writeFailed, some closed.1)
    else (.error .writeFailed, some opened.1)
  else (.error .writeFailed, none)

/-- What the `catch` leaves of the temporary file. -/
def Machine.discard (m : Machine α) (disk : Disk) (file : Option Text) : Disk :=
  if m.unlinks then disk else { disk with leftovers := disk.leftovers ++ file.toList }

/-- Seeking and reading in what is open. -/
def Machine.opened (m : Machine α) (content : Option Text) : Option Opened :=
  content.map fun content offset bytes =>
    if m.readable offset bytes then some ((content.drop offset).take bytes) else none

def record (v : Values α) (view : α → Option (ℤ × Bool)) (m : Machine α) (now : ℤ) (force : Bool)
    (disk : Disk) : Except RecordError Bool × Disk :=
  if !m.available.any (16384 ≤ ·) then (.error .memoryLow, disk)
  else
    match historySource m disk with
    | .error e => (.error e, disk)
    | .ok content =>
      match recordEntries v view m now force content with
      | .error e => (.error e, disk)
      | .ok none => (.ok false, disk)
      | .ok (some entries) =>
        let source := m.opened content
        match writeHistory v m source entries with
        | (.error e, file) => (.error e, m.discard disk file)
        | (.ok (), file) =>
          if !m.targetStill then (.error .storage, m.discard disk file)
          else if !m.unchanged then (.error .readFailed, m.discard disk file)
          else if !m.renames then (.error .writeFailed, m.discard disk file)
          else
            -- a preview that cannot be made or written leaves the old one
            let preview := match indexedPreview v source entries with
              | .ok text => if m.previews then some text else disk.preview
              | .error _ => disk.preview
            (.ok true, { disk with history := file, preview })

section Record
variable {v : Values α} {m : Machine α} {disk disk' : Disk} {force : Bool} {source : Option Opened}
  {entries : List Entry} {result : Except RecordError Bool}

/-- The rows as they are written, the first without a comma in front. -/
def lines : Bool → List Text → Text
  | _, [] => []
  | first, text :: texts => (if first then [] else [',', '\n']) ++ text ++ lines false texts

theorem lines_intercalate : lines true texts = [',', '\n'].intercalate texts := by
  have hrest : ∀ texts : List Text, ∀ text, text ++ lines false texts =
      [',', '\n'].intercalate (text :: texts) := by
    intro texts
    induction texts with
    | nil => simp [lines]
    | cons next texts ih =>
      intro text
      rw [List.intercalate_cons_cons, ← ih next]
      simp [lines]
  cases texts with
  | nil => rfl
  | cons text texts => simpa [lines] using hrest texts text

/-- The entry can be read, as this text. -/
abbrev Written (v : Values α) (source : Option Opened) (entry : Entry) (text : Text) : Prop :=
  entryRaw v source entry = .ok text

theorem put_whole {room : ℕ} {file data : Text} (h : (put room file data).2 = true) :
    (put room file data).1 = file ++ data := by
  have hroom : file.length + data.length ≤ room := of_decide_eq_true h
  rw [put, List.take_of_length_le (by omega)]

theorem fileText_length : (fileText texts).length = 2 + (lines true texts).length := by
  rw [lines_intercalate, fileText]
  simp
  omega

instance : IsTrans Entry Entry.Before where
  trans a b c hab hbc := by
    unfold Entry.Before at hab hbc ⊢
    omega

instance : Std.Total Entry.Before where
  total a b := by
    unfold Entry.Before
    omega

end Record

end Foxhole.History
