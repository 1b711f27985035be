import Foxhole.HistoryRecord
import Foxhole.Lib.Trace

/-! The sampler: what its files hold after any number of calls, checkpoints and restarts. -/
namespace Foxhole.History
open Check Json Thinning Trace

variable {α : Type} {json : Text → Option α} {view : α → Option (ℤ × Bool)} {now : ℤ}

/-- `json()` reads what `sprintf('%J')` prints, with its time and measurement. -/
structure Values.Printed (v : Values α) (view : α → Option (ℤ × Bool)) : Prop where
  decodes : Decodes v.json
  value : ∀ point, Derives .value (v.print point)
  reads : ∀ point, (v.json (v.print point)).bind view = view point

def rowsText (rows : List (Row json view)) : Text := fileText (rows.map (·.text))

/-- Rows in order, not too many, and of those older than fifteen minutes at the last sample one in
five minutes. -/
structure Kept (now : ℤ) (rows : List (Row json view)) : Prop where
  sorted : rows.Pairwise fun a b => a.t ≤ b.t
  few : rows.length ≤ 9000
  spaced : rows.Pairwise fun a b => a.t < now - 900000 → b.t < now - 900000 →
    a.t.tdiv 300000 ≠ b.t.tdiv 300000
  window : ∀ row ∈ rows, now - month ≤ row.t ∧ row.t ≤ now + 60000

section Runs
variable {rows : List (Row json view)} {row : Row json view}

/-- What happens to the files: a call of the sampler, perhaps with a checkpoint behind it, or the
router starts again and what was in memory is gone. -/
inductive Event (α : Type) where
  | sample (m : Machine α) (now : ℤ) (checkpoint due packs : Bool)
  | restart

/-- The sampler: after a recorded sample the history is packed when it is asked for or an hour old.
`packs` is whether `gzip` and `mv` succeed. -/
def Disk.after (v : Values α) (view : α → Option (ℤ × Bool)) (disk : Disk) : Event α → Disk
  | .sample m now checkpoint due packs =>
    match record v view m now checkpoint disk with
    | (.ok true, disk) =>
      if (checkpoint || disk.archive.isNone || due) && packs then
        { disk with archive := disk.history }
      else disk
    | (_, disk) => disk
  | .restart => { archive := disk.archive }

def Disk.run (v : Values α) (view : α → Option (ℤ × Bool)) (disk : Disk) (events : List (Event α)) :
    Disk := events.foldl (Disk.after v view) disk

/-- Whether the event takes place: a call of the sampler may record nothing. -/
def Disk.recorded (v : Values α) (view : α → Option (ℤ × Bool)) (disk : Disk) : Event α → Bool
  | .sample m now checkpoint _ _ =>
    match (record v view m now checkpoint disk).1 with
    | .ok recorded => recorded
    | .error _ => false
  | .restart => true

/-- The rows that the sampler has, and those of its last checkpoint. -/
structure Histories (json : Text → Option α) (view : α → Option (ℤ × Bool)) where
  live : Option (List (Row json view)) := none
  saved : Option (List (Row json view)) := none

/-- What a sample is added to. -/
def Histories.latest (s : Histories json view) :
    List (Row json view) := (s.live <|> s.saved).getD []

def Histories.sampled (s : Histories json view) (row : Row json view) : Histories json view :=
  { s with live := some (retained (·.t) row.t (s.latest.filter (inWindow row.t)) row) }

def Histories.packed (s : Histories json view) (packs : Bool) : Histories json view :=
  if packs then { s with saved := s.live } else s

/-- What the sampler is for: a recorded sample is added, and the rows are copied when a checkpoint
is due; a call that records nothing changes nothing; a restart goes back to the copy. -/
inductive Keeps (v : Values α) {view : α → Option (ℤ × Bool)} :
    Histories v.json view → Event α × Bool → Histories v.json view → Prop
  | recorded (s : Histories v.json view) (m : Machine α) (checkpoint due packs : Bool) (point : α)
      (row : Row v.json view) (hpoint : m.sample = some point) (htext : row.text = v.print point) :
    Keeps v s (.sample m row.t checkpoint due packs, true)
      ((s.sampled row).packed ((checkpoint || s.saved.isNone || due) && packs))
  | unrecorded (s : Histories v.json view) (m : Machine α) (now : ℤ) (checkpoint due packs : Bool) :
    Keeps v s (.sample m now checkpoint due packs, false) s
  | restart (s : Histories v.json view) : Keeps v s (.restart, true) { s with live := none }

/-- The files hold these rows. -/
structure Represents (disk : Disk) (s : Histories json view) : Prop where
  history : disk.history = s.live.map rowsText
  archive : disk.archive = s.saved.map rowsText
  fits : ∀ rows, s.live = some rows ∨ s.saved = some rows → (rowsText rows).length ≤ maximum

/-- Every list of rows is one that a sample has left. -/
def Histories.Kept (s : Histories json view) : Prop :=
  ∀ rows, s.live = some rows ∨ s.saved = some rows → ∃ now, History.Kept now rows

variable {v : Values α} {m : Machine α} {disk disk' : Disk} {force : Bool}
  {s : Histories v.json view}

theorem historySource_represents (h : Represents disk s) {content : Option Text}
    (hsource : historySource m disk = .ok content) :
    content = none ∧ s.latest = [] ∨ content = some (rowsText s.latest) := by
  rw [historySource, bind_eq_ok] at hsource
  obtain ⟨-, -, hsource⟩ := hsource
  cases hlive : s.live with
  | some live =>
    have hrows : s.latest = live := by simp [Histories.latest, hlive]
    simp only [h.history, hlive, Option.map_some, bind_eq_ok, pure_eq_ok] at hsource
    obtain ⟨-, -, -, -, rfl⟩ := hsource
    exact Or.inr (by rw [hrows])
  | none =>
    cases hsaved : s.saved with
    | some saved =>
      have hrows : s.latest = saved := by simp [Histories.latest, hlive, hsaved]
      simp only [h.history, h.archive, hlive, hsaved, Option.map_some, Option.map_none, bind_eq_ok,
        pure_eq_ok] at hsource
      obtain ⟨-, -, -, -, -, -, rfl⟩ := hsource
      exact Or.inr (by rw [hrows])
    | none =>
      simp only [h.history, h.archive, hlive, hsaved, Option.map_none, pure_eq_ok] at hsource
      exact Or.inl ⟨hsource.symm, by simp [Histories.latest, hlive, hsaved]⟩

theorem latest_kept (hs : s.Kept) : ∃ now, History.Kept now s.latest := by
  cases hlive : s.live with
  | some live =>
    obtain ⟨now, hkept⟩ := hs live (Or.inl hlive)
    exact ⟨now, by simpa [Histories.latest, hlive] using hkept⟩
  | none =>
    cases hsaved : s.saved with
    | some saved =>
      obtain ⟨now, hkept⟩ := hs saved (Or.inr hsaved)
      exact ⟨now, by simpa [Histories.latest, hlive, hsaved] using hkept⟩
    | none => exact ⟨0, by constructor <;> simp [Histories.latest, hlive, hsaved]⟩

theorem recordIndex_represents (hv : v.Printed view) (h : Represents disk s) {content : Option Text}
    (hsource : historySource m disk = .ok content) {indexed : List Entry}
    (hindex : recordIndex v.json view m now content = .ok indexed) :
    (∀ c ∈ content, c = rowsText s.latest) ∧ ∃ visits,
      FileVisits v.json (s.latest.map (·.text)) visits ∧
      indexed = selectEntries (entriesOf view now visits) now := by
  rcases historySource_represents h hsource with ⟨rfl, hempty⟩ | rfl
  · cases hindex
    refine ⟨by simp, [], ?_, ?_⟩
    · rw [hempty]
      rfl
    · simp [entriesOf, selectEntries, surviving, gather]
  · have hvalues : ∀ text ∈ s.latest.map (·.text), Derives .value text := by
      intro text ht
      obtain ⟨row, -, rfl⟩ := List.mem_map.1 ht
      exact row.value
    refine ⟨by simp, ?_⟩
    rw [recordIndex] at hindex
    split at hindex
    · rename_i entries hstream
      obtain rfl := Except.ok.inj hindex
      exact index_visits hv.decodes hvalues (m.first.reads _) (m.again.reads _) hstream
    · cases hindex

theorem Represents.packed (h : Represents disk s) (packs : Bool) :
    Represents (if packs then { disk with archive := disk.history } else disk)
      (s.packed packs) := by
  cases packs with
  | false => exact h
  | true => exact ⟨h.history, h.history, fun rows hrows => h.fits rows (hrows.elim Or.inl Or.inl)⟩

/-- Nothing fails in the call, and `sample()` returns this point. -/
structure Machine.Serves (m : Machine α) (view : α → Option (ℤ × Bool)) (now : ℤ) (point : α) :
    Prop where
  available : ∃ memory, m.available = some memory ∧ 16384 ≤ memory
  opens : m.target = true ∧ m.ordinary = true ∧ m.opens = true ∧ m.targetArchive = true ∧
    m.unpacks = true
  reads : m.rewinds = true ∧ (∀ content, ∃ chunks : List Text, (∀ chunk ∈ chunks, chunk ≠ []) ∧
    chunks.flatten = content ∧ m.again.reader content = chunks.map some) ∧
    ∀ offset bytes, m.readable offset bytes = true
  sample : m.sample = some point ∧ view point = some (now, true)
  writes : m.creates = true ∧ maximum ≤ m.room ∧ m.flushes = true
  replaces : m.targetStill = true ∧ m.unchanged = true ∧ m.renames = true

theorem writeRows_of {room bytes : ℕ} {first : Bool} {file : Text} {texts : List Text}
    {entries : List Entry} {source : Option Opened}
    (h : List.Forall₂ (Written v source) entries texts)
    (hbytes : bytes + (lines first texts).length ≤ maximum)
    (hroom : file.length + (lines first texts).length ≤ room) :
    writeRows v source room entries first bytes file = (.ok (), file ++ lines first texts) := by
  induction h generalizing first bytes file with
  | nil => rw [writeRows, lines, List.append_nil]
  | @cons entry text entries texts hentry _ ih =>
    have hlines : lines first (text :: texts) =
        ((if first = true then [] else [',', '\n']) ++ text) ++ lines false texts := rfl
    rw [writeRows]
    simp only [hentry]
    generalize (if first = true then [] else [',', '\n']) ++ text = data at hlines ⊢
    rw [hlines, List.length_append] at hbytes hroom
    have hput : (put room file data).2 = true := decide_eq_true (by omega)
    rw [if_neg (by omega), hput, if_pos rfl, put_whole hput, hlines, ← List.append_assoc]
    refine ih (by omega) ?_
    rw [List.length_append]
    omega

theorem writeHistory_of {texts : List Text} {entries : List Entry} {source : Option Opened}
    {point : α} (hm : m.Serves view now point) (h : List.Forall₂ (Written v source) entries texts)
    (hbytes : (fileText texts).length ≤ maximum) :
    writeHistory v m source entries = (.ok (), some (fileText texts)) := by
  obtain ⟨hcreates, hroom, hflushes⟩ := hm.writes
  rw [fileText_length] at hbytes
  have hopen : (put m.room [] ['[']).2 = true := decide_eq_true (by simp; omega)
  have hrows : writeRows v source m.room entries true 2 ['['] =
      (.ok (), ['['] ++ lines true texts) := by
    refine writeRows_of h hbytes ?_
    rw [List.length_singleton]
    omega
  have hclose : (put m.room (['['] ++ lines true texts) [']']).2 = true :=
    decide_eq_true (by simp; omega)
  rw [writeHistory, if_pos hcreates]
  simp only [hopen, if_true, put_whole hopen, List.nil_append, hrows, hclose, hflushes,
    Bool.and_self,
    put_whole hclose]
  rw [fileText, ← lines_intercalate]
  rfl

theorem selectEntries_subset {entries : List Entry} (h : entries.Pairwise Entry.Before) :
    selectEntries entries now ⊆ entries := by
  rw [selectEntries_capped, surviving_eq_thin h]
  exact (capped_sublist.trans thin_sublist).subset

/-- What is found in the bytes of a row can be read there. -/
theorem finds_written {point : α} (hm : m.Serves view now point) {content : Text} {entry : Entry}
    {text : Text} (h : Finds content entry text) :
    Written v (m.opened (some content)) entry text := by
  unfold Finds at h
  unfold Written entryRaw
  cases hs : entry.source with
  | raw raw =>
    rw [hs] at h
    exact congrArg Except.ok h
  | range offset bytes legacy =>
    rw [hs] at h
    obtain ⟨rfl, rfl, hslice⟩ := h
    simp only [Machine.opened, Option.map_some, Option.bind_some, hm.reads.2.2 offset text.length,
      if_true, hslice, bind_eq_ok]
    exact ⟨(), require_eq_ok.2 trivial, rfl⟩

theorem historySource_of {point : α} (hm : m.Serves view now point) (h : Represents disk s) :
    historySource m disk = .ok none ∧ s.latest = [] ∨
      historySource m disk = .ok (some (rowsText s.latest)) := by
  obtain ⟨htarget, hordinary, hopens, harchive, hunpacks⟩ := hm.opens
  have hsome (rows : List (Row v.json view)) : 1 ≤ (rowsText rows).length := by
    rw [rowsText, fileText_length]
    omega
  have hrequire {p : Prop} [Decidable p] (hp : p) (e : RecordError) : require p e = .ok () :=
    require_eq_ok.2 hp
  cases hlive : s.live with
  | some live =>
    have hrows : s.latest = live := by simp [Histories.latest, hlive]
    refine Or.inr ?_
    simp only [historySource, h.history, hlive, Option.map_some, hrows]
    rw [hrequire htarget, hrequire hopens,
      hrequire ⟨hordinary, hsome live, h.fits live (Or.inl hlive)⟩]
    rfl
  | none =>
    cases hsaved : s.saved with
    | some saved =>
      have hrows : s.latest = saved := by simp [Histories.latest, hlive, hsaved]
      refine Or.inr ?_
      simp only [historySource, h.history, h.archive, hlive, hsaved, Option.map_some,
        Option.map_none,
        hrows]
      rw [hrequire htarget, hrequire harchive, hrequire hopens,
        hrequire ⟨hunpacks, h.fits saved (Or.inr hsaved)⟩]
      rfl
    | none =>
      refine Or.inl ⟨?_, by simp [Histories.latest, hlive, hsaved]⟩
      simp only [historySource, h.history, h.archive, hlive, hsaved, Option.map_none]
      rw [hrequire htarget]
      rfl

theorem source_fits {content : Text} (h : historySource m disk = .ok (some content)) :
    content.length ≤ maximum := by
  rw [historySource, bind_eq_ok] at h
  obtain ⟨-, -, h⟩ := h
  split at h
  · simp only [bind_eq_ok, require_eq_ok, pure_eq_ok, Option.some.injEq] at h
    obtain ⟨-, ⟨-, -, hle⟩, -, -, rfl⟩ := h
    exact hle
  · simp only [bind_eq_ok, require_eq_ok, pure_eq_ok, Option.some.injEq] at h
    obtain ⟨-, -, -, ⟨-, hle⟩, -, -, rfl⟩ := h
    exact hle
  · cases h

/-- The index of the sampler's file can always be made: at worst the exact scan reads it. -/
theorem recordIndex_of {point : α} (hv : v.Printed view) (hm : m.Serves view now point)
    (hs : s.Kept) (hfits : (rowsText s.latest).length ≤ maximum) :
    ∃ indexed, recordIndex v.json view m now (some (rowsText s.latest)) = .ok indexed := by
  obtain ⟨hrewinds, hagain, -⟩ := hm.reads
  obtain ⟨chunks, hne, hflat, hreader⟩ := hagain (rowsText s.latest)
  obtain ⟨last, hkept⟩ := latest_kept hs
  have hvalues : ∀ text ∈ s.latest.map (·.text), Derives .value text := by
    intro text ht
    obtain ⟨row, -, rfl⟩ := List.mem_map.1 ht
    exact row.value
  have hrows := @fileItems_rows (s.latest.map (·.text))
  have hcount : (fileItems (s.latest.map (·.text))).length = s.latest.length := by
    simpa using congrArg List.length hrows
  have hscan : Succeeds (scanRows v.json (chunks.map some)) := by
    refine (scan_rows_exact hv.decodes chunks hne).1.2 ⟨fileListing (s.latest.map (·.text)),
      fileListing_ok hvalues, ?_, ?_, fun item hitem => ?_, ?_⟩
    · rw [fileListing_text, hflat]
      rfl
    · have := hkept.few
      change (fileItems _).length ≤ 18000
      omega
    · have hmem := List.mem_map_of_mem (f := rowText) hitem
      rw [show (fileListing (s.latest.map (·.text))).items = fileItems
        (s.latest.map (·.text)) from rfl,
        hrows] at hmem
      obtain ⟨row, -, heq⟩ := List.mem_map.1 hmem
      rw [← heq]
      exact row.bytes
    · rw [hflat]
      exact hfits
  obtain ⟨found, hfound⟩ := hscan
  rw [recordIndex, hrewinds]
  simp only [streamIndex, if_true]
  cases hfast : scanRowsFast v.json (m.first.reader (rowsText s.latest)) with
  | ok r => exact ⟨_, rfl⟩
  | error e =>
    simp only [hreader, exactIndex, hfound]
    exact ⟨_, rfl⟩

/-- Every entry of the index is of a row. -/
theorem indexed_times (hs : s.Kept) {visits : List (Visit α)}
    (hvisits : FileVisits v.json (s.latest.map (·.text)) visits) :
    ∀ entry ∈ selectEntries (entriesOf view now visits) now, ∃ row ∈ s.latest, entry.t = row.t := by
  obtain ⟨last, hkept⟩ := latest_kept hs
  obtain ⟨placed, hrows, hentries, hbefore, -⟩ := entries_in_order now hkept.sorted hvisits
  intro entry he
  have he := selectEntries_subset (hentries ▸ hbefore) he
  rw [← hentries] at he
  obtain ⟨p, hp, rfl⟩ := List.mem_map.1 he
  have hrow : p.row ∈ s.latest.filter (inWindow now) := hrows ▸ List.mem_map_of_mem hp
  exact ⟨p.row, (List.mem_filter.1 hrow).1, p.same⟩

theorem recordEntries_of {point : α} (hm : m.Serves view now point)
    (hlen : (v.print point).length ≤ rowLimit) {content : Option Text} {indexed : List Entry}
    (hindex : recordIndex v.json view m now content = .ok indexed)
    (hold : force = true ∨ ∀ entry ∈ indexed, 14000 ≤ now - entry.t) :
    recordEntries v view m now force content =
      .ok (some (selectEntries (indexed ++ [⟨now, 18000, .raw (v.print point)⟩]) now)) := by
  have hskip : (!force && indexed.getLast?.any (fun entry => decide (now - entry.t < 14000))) =
      false := by
    rcases hold with hforce | hold
    · rw [hforce]
      rfl
    · cases hlast : indexed.getLast? with
      | none => simp
      | some entry =>
        have := hold entry (List.mem_of_getLast? hlast)
        simp
        omega
  rw [recordEntries, hindex]
  simp only [bind, Except.bind, hskip, hm.sample.1]
  have hrequire {p : Prop} [Decidable p] (hp : p) (e : RecordError) : require p e = .ok () :=
    require_eq_ok.2 hp
  rw [if_neg (by simp), hrequire hm.sample.2, hrequire hlen]
  rfl

/-- Where nothing fails, a sample joins the rows that are there, unless one of them is fresh or the
file would be too large; nothing that was written on earlier calls is in the way. -/
theorem record_succeeds {point : α} (hv : v.Printed view) (hs : s.Kept) (h : Represents disk s)
    (hm : m.Serves view now point) (hlen : (v.print point).length ≤ rowLimit)
    (hold : force = true ∨ ∀ row ∈ s.latest, 14000 ≤ now - row.t)
    (hroom : ∀ row : Row v.json view, row.t = now → row.text = v.print point →
      (rowsText (retained (·.t) now (s.latest.filter (inWindow now)) row)).length ≤ 6000000) :
    ∃ disk', record v view m now force disk = (.ok true, disk') ∧
      ∃ row : Row v.json view, row.t = now ∧ row.text = v.print point ∧ disk'.history =
        some (rowsText (retained (·.t) now (s.latest.filter (inWindow now)) row)) := by
  obtain ⟨memory, havailable, hmemory⟩ := hm.available
  obtain ⟨last, hkept⟩ := latest_kept hs
  have hfew : s.latest.length ≤ rowsLimit := by
    have := hkept.few
    rw [rowsLimit]
    omega
  let row : Row v.json view :=
    ⟨now, v.print point, hv.value point, hlen, (hv.reads point).trans hm.sample.2⟩
  obtain ⟨content, indexed, visits, hsource, hindex, hvisits, hindexed, hraw⟩ :
      ∃ content indexed visits, historySource m disk = .ok content ∧
      recordIndex v.json view m now content = .ok indexed ∧
      FileVisits v.json (s.latest.map (·.text)) visits ∧
      indexed = selectEntries (entriesOf view now visits) now ∧
      (content = some (rowsText s.latest) ∨ content = none ∧ indexed = []) := by
    rcases historySource_of hm h with ⟨hsource, hempty⟩ | hsource
    · refine ⟨none, [], [], hsource, rfl, ?_, ?_, Or.inr ⟨rfl, rfl⟩⟩
      · rw [hempty]
        rfl
      · simp [entriesOf, selectEntries, surviving, gather]
    · have hfits : (rowsText s.latest).length ≤ maximum := source_fits hsource
      obtain ⟨indexed, hindex⟩ := recordIndex_of hv hm hs hfits
      obtain ⟨-, visits, hvisits, hindexed⟩ := recordIndex_represents hv h hsource hindex
      exact ⟨_, indexed, visits, hsource, hindex, hvisits, hindexed, Or.inl rfl⟩
  have hfresh : force = true ∨ ∀ entry ∈ indexed, 14000 ≤ now - entry.t := by
    refine hold.imp_right fun hold entry he => ?_
    obtain ⟨old, hmem, ht⟩ := indexed_times hs hvisits entry (hindexed ▸ he)
    rw [ht]
    exact hold old hmem
  have hentries := recordEntries_of hm hlen hindex hfresh
  obtain ⟨placed, hrows, hselected⟩ := selected_rows hkept.sorted hfew hvisits row rfl
  rw [hindexed, ← hselected] at hentries
  have hwritten : List.Forall₂ (Written v (m.opened content)) (placed.map (·.entry))
      ((placed.map (·.row)).map (·.text)) := by
    rw [List.map_map, List.forall₂_map_left_iff, List.forall₂_map_right_iff, List.forall₂_same]
    intro p hp
    rcases hraw with rfl | ⟨rfl, hnil⟩
    · exact finds_written hm p.finds
    · have hmem := List.mem_map_of_mem (f := (·.entry)) hp
      rw [hselected, ← hindexed, hnil] at hmem
      have hsample := List.mem_singleton.1 (selectEntries_subset (List.pairwise_singleton _ _) hmem)
      have hfinds := p.finds
      rw [Finds, hsample] at hfinds
      rw [Written, entryRaw, hsample]
      exact congrArg Except.ok hfinds
  have hbytes := hroom row rfl rfl
  rw [← hrows] at hbytes
  have hfile := writeHistory_of hm hwritten hbytes
  obtain ⟨hstill, hunchanged, hrenames⟩ := hm.replaces
  have havail : m.available.any (16384 ≤ ·) = true := by
    rw [havailable]
    exact decide_eq_true hmemory
  rw [record, havail, hsource]
  simp only [hentries, hfile, hstill, hunchanged, hrenames]
  refine ⟨_, rfl, row, rfl, rfl, ?_⟩
  rw [rowsText, ← hrows]

end Runs

/-! A sampler whose points are their own times. -/

/-- The file in one piece. -/
def wholeReading : Reading where
  reader content := if content = [] then [] else [some content]
  reads content := by
    by_cases h : content = []
    · exact ⟨[], by simp, Or.inl ⟨by rw [if_pos h]; rfl, h.symm⟩⟩
    · exact ⟨[content], by simpa using h, Or.inl ⟨by rw [if_neg h]; rfl, by simp⟩⟩

theorem ten_pos : 0 < 10 := by decide

def digitOf (t : Text) : Fin 10 :=
  match t.find? Char.isDigit with
  | some c => ⟨(c.toNat - 48) % 10, Nat.mod_lt _ ten_pos⟩
  | none => ⟨0, ten_pos⟩

open Classical in
noncomputable def digitJson (t : Text) : Option (Fin 10) :=
  if Derives .element t then some (digitOf t) else none

noncomputable def samplerValues : Values (Fin 10) := { digitValues with json := digitJson }

/-- One point in two hundred seconds. -/
def samplerView (point : Fin 10) : Option (ℤ × Bool) := some (200000 * point.val, true)

theorem digitOf_item {item : Item} (hok : item.Ok) : digitOf item.text = digitOf item.value := by
  have hblank {w : Text} (hw : Blank w) : w.find? Char.isDigit = none := by
    refine List.find?_eq_none.2 fun c hc hdigit => ?_
    have hc := hw c hc
    simp only [isBlank, Bool.or_eq_true, decide_eq_true_eq] at hc
    rcases hc with ((rfl | rfl) | rfl) | rfl <;> revert hdigit <;> decide
  have hfind : item.text.find? Char.isDigit = item.value.find? Char.isDigit := by
    simp [Item.text, List.find?_append, hblank hok.lead, hblank hok.trail]
  rw [digitOf, digitOf, hfind]

theorem element_of_value {t : Text} (h : Derives .value t) : Derives .element t :=
  element_iff.2 ⟨⟨[], t, []⟩, ⟨by simp [Blank], h, by simp [Blank]⟩, by simp [Item.text]⟩

theorem digitJson_decodes : Decodes digitJson where
  accepts t := by
    unfold digitJson
    split <;> simp_all
  blank item hok := by
    rw [digitJson, digitJson, if_pos (element_iff.2 ⟨item, hok, rfl⟩),
      if_pos (element_of_value hok.value), digitOf_item hok]

theorem digitOf_row : ∀ point, digitOf (digitRow point) = point := by decide

theorem samplerValues_printed : samplerValues.Printed samplerView where
  decodes := digitJson_decodes
  value := digitRow_value
  reads point := by
    change (digitJson (digitRow point)).bind samplerView = samplerView point
    rw [digitJson, if_pos (element_of_value (digitRow_value point)), digitOf_row]
    rfl

/-- A router on which everything works, with the file read in one piece. -/
def workingMachine (point : Fin 10) : Machine (Fin 10) where
  available := some 65536
  target := true
  ordinary := true
  opens := true
  targetArchive := true
  unpacks := true
  first := wholeReading
  rewinds := true
  again := wholeReading
  readable := fun _ _ => true
  sample := some point
  creates := true
  room := 8000000
  flushes := true
  targetStill := true
  unchanged := true
  renames := true
  unlinks := true
  previews := true

theorem workingMachine_serves (point : Fin 10) :
    (workingMachine point).Serves samplerView (200000 * point.val) point where
  available := ⟨65536, rfl, by decide⟩
  opens := ⟨rfl, rfl, rfl, rfl, rfl⟩
  reads := by
    refine ⟨rfl, fun content => ?_, fun _ _ => rfl⟩
    by_cases h : content = []
    · exact ⟨[], by simp, h.symm, if_pos h⟩
    · exact ⟨[content], by simpa using h, by simp, if_neg h⟩
  sample := ⟨rfl, rfl⟩
  writes := ⟨rfl, show maximum ≤ 8000000 by decide, rfl⟩
  replaces := ⟨rfl, rfl, rfl⟩

noncomputable def sampleRow (point : Fin 10) : Row samplerValues.json samplerView where
  t := 200000 * point.val
  text := digitRow point
  value := digitRow_value point
  bytes := by
    change 7 ≤ rowLimit
    decide
  reads := (samplerValues_printed.reads point).trans rfl

/-- The rows of these points, and those that were saved. -/
noncomputable def pointHistories (live saved : List (Fin 10)) :
    Histories samplerValues.json samplerView where
  live := some (live.map sampleRow)
  saved := some (saved.map sampleRow)

noncomputable def pointDisk (live saved : List (Fin 10)) : Disk where
  history := some (rowsText (live.map sampleRow))
  archive := some (rowsText (saved.map sampleRow))

/-- Four samples, and a checkpoint behind the second. -/
theorem fourHistories_kept : (pointHistories [0, 1, 4, 5] [0, 1]).Kept := by
  have hkept : Kept 1000000 [sampleRow 0, sampleRow 1, sampleRow 4, sampleRow 5] := by
    constructor <;> simp [sampleRow, month]
  rintro rows (hrows | hrows)
  · exact ⟨1000000, Option.some.inj hrows ▸ hkept⟩
  · refine ⟨1000000, Option.some.inj hrows ▸ ?_⟩
    have hsub : [sampleRow 0, sampleRow 1].Sublist
        [sampleRow 0, sampleRow 1, sampleRow 4, sampleRow 5] := List.sublist_append_left _ _
    exact ⟨hkept.sorted.sublist hsub, by simp, hkept.spaced.sublist hsub,
      fun row hrow => hkept.window row (hsub.subset hrow)⟩

theorem fourDisk_represents : Represents (pointDisk [0, 1, 4, 5] [0, 1])
    (pointHistories [0, 1, 4, 5] [0, 1]) := by
  refine ⟨rfl, rfl, ?_⟩
  rintro rows (hrows | hrows)
  · rw [← Option.some.inj hrows]
    change (fileText [digitRow 0, digitRow 1, digitRow 4, digitRow 5]).length ≤ maximum
    decide
  · rw [← Option.some.inj hrows]
    change (fileText [digitRow 0, digitRow 1]).length ≤ maximum
    decide

/-- Of the first two samples, in one five minutes, the second is kept. -/
theorem fourHistories_retained (row : Row samplerValues.json samplerView) (ht : row.t = 1800000) :
    retained (·.t) 1800000
      ((pointHistories [0, 1, 4, 5] [0, 1]).latest.filter (inWindow 1800000)) row =
      [sampleRow 1, sampleRow 4, sampleRow 5, row] := by
  have hfilter : (pointHistories [0, 1, 4, 5] [0, 1]).latest.filter (inWindow 1800000) =
      [sampleRow 0, sampleRow 1, sampleRow 4, sampleRow 5] := by
    simp [Histories.latest, pointHistories, inWindow, sampleRow, month]
  have hthin : thin (fun b : Row samplerValues.json samplerView => decide (1800000 - 900000 ≤ b.t))
      (fun b => b.t.tdiv 300000) [sampleRow 0, sampleRow 1, sampleRow 4, sampleRow 5] =
      [sampleRow 1, sampleRow 4, sampleRow 5] := by
    simp [thin, sampleRow]
  have hinsert : [sampleRow 1, sampleRow 4, sampleRow 5].orderedInsert
      (fun a b : Row samplerValues.json samplerView => a.t < b.t) row =
      [sampleRow 1, sampleRow 4, sampleRow 5, row] := by
    simp [List.orderedInsert, sampleRow, ht]
  rw [hfilter, retained, hthin, hinsert]
  exact capped_of_le (by simp)

theorem record_succeeds_sample : ∃ disk',
    record samplerValues samplerView (workingMachine 9) 1800000 false
      (pointDisk [0, 1, 4, 5] [0, 1]) = (.ok true, disk') ∧
    disk'.history = some (fileText [digitRow 1, digitRow 4, digitRow 5, digitRow 9]) := by
  have hfile (row : Row samplerValues.json samplerView) (ht : row.t = 1800000)
      (htext : row.text = digitRow 9) :
      rowsText (retained (·.t) 1800000
        ((pointHistories [0, 1, 4, 5] [0, 1]).latest.filter (inWindow 1800000)) row) =
        fileText [digitRow 1, digitRow 4, digitRow 5, digitRow 9] := by
    rw [fourHistories_retained row ht, ← htext]
    rfl
  have hroom (row : Row samplerValues.json samplerView) (ht : row.t = 1800000)
      (htext : row.text = digitRow 9) : (rowsText (retained (·.t) 1800000
        ((pointHistories [0, 1, 4, 5] [0, 1]).latest.filter (inWindow 1800000)) row)).length ≤
        6000000 := by
    rw [hfile row ht htext]
    decide
  have hold : false = true ∨ ∀ row ∈ (pointHistories [0, 1, 4, 5] [0, 1]).latest,
      14000 ≤ 1800000 - row.t :=
    Or.inr (by simp [Histories.latest, pointHistories, sampleRow])
  obtain ⟨disk', hrecord, row, ht, htext, hhistory⟩ :=
    record_succeeds samplerValues_printed fourHistories_kept fourDisk_represents
      (workingMachine_serves 9) (show (digitRow 9).length ≤ rowLimit by decide) hold hroom
  exact ⟨disk', hrecord, hhistory.trans (congrArg some (hfile row ht htext))⟩

end Foxhole.History
