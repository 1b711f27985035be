import Foxhole.BundleDescriptor
import Foxhole.Lib.Keyed
import Mathlib.Algebra.Order.BigOperators.Group.List

/-! What the producer of a bundle transport has checked, and what it writes: the archive and the
outer manifest. -/
namespace Foxhole.Bundle
open Check Text Address Blocks

variable {host : Host} {root : Dir} {env : Env} {members : List Member} {rows : List (Text × Row)}
  {row : Text × Row} {entries : List (Text × Row)} {bytes expected : Text} {file : File}

/-! What the producer has checked. -/

/-- An entry of the source: its file has the digest and the length that are told. -/
structure Sourced (host : Host) (root : Dir) (row : Text × Row) : Prop where
  name : nameShape.accepts row.1 = true
  hash : hashShape.accepts row.2.sha256 = true
  free : row.1 ∉ RESERVED
  file : ∃ file, root.lookup row.1 = some file ∧ host.sha file.content = row.2.sha256 ∧
    file.content.length = row.2.bytes ∧ 0 < row.2.bytes

theorem find_eq_ok {name : Text} : find root name = .ok file ↔ root.lookup name = some file := by
  unfold find
  cases root.lookup name <;> simp

theorem sourceEntry_ok {seen : List Text} {line : Text}
    (h : sourceEntry host root seen line = .ok row) :
    Sourced host root row ∧ lc row.1 ∉ seen := by
  unfold sourceEntry at h
  split at h
  · cases h
  · next entry hentry =>
    simp only [bind_eq_ok, require_eq_ok, pure_eq_ok, regular] at h
    obtain ⟨-, ⟨hnew, hfree⟩, file, hfile, -, hregular, -, hdigest, rfl⟩ := h
    obtain ⟨-, hhash, hname⟩ := matchLine_eq_some.1 hentry
    exact ⟨⟨hname, hhash, hfree, file, find_eq_ok.1 hfile, hdigest, rfl, hregular.2.2.2.1⟩, hnew⟩

theorem sourceEntries_ok {text : Text} (h : sourceEntries host root text = .ok entries) :
    (∀ row ∈ entries, Sourced host root row) ∧ (entries.map fun row => lc row.1).Nodup := by
  simp only [sourceEntries, bind_eq_ok] at h
  obtain ⟨-, -, hscan⟩ := h
  have hscanned : Scanned (fun row : Text × Row => [lc row.1])
      (fun _ row => Sourced host root row) [] entries := by
    refine scanned_of_scan (fun seen line row hrow => ?_) hscan
    obtain ⟨hsourced, hnew⟩ := sourceEntry_ok hrow
    exact ⟨hsourced, by simpa using hnew⟩
  exact ⟨hscanned.forall_mem fun _ _ h => h, hscanned.nodup_map (k := fun t : Text => t) (by simp)⟩

/-- The bounds that a bundle is checked for. -/
structure Bounded (entries archived : List (Text × Row)) : Prop where
  some : archived ≠ []
  count : archived.length ≤ 1024
  each : ∀ row ∈ archived, row.2.bytes ≤ 134217728
  total : (archived.map (·.2.bytes)).sum ≤ 2147483648
  archive : tarBytes archived ≤ 536870912
  assets : entries.length - archived.length + 3 < 200

theorem checkBundle_ok (h : checkBundle host root expected = .ok entries) :
    (∀ row ∈ entries, Sourced host root row) ∧ (entries.map fun row => lc row.1).Nodup ∧
      Bounded entries (entries.filter isArchived) ∧
      (∀ file ∈ root, file.1 = sumsName ∨ file.1 ∈ entries.map (·.1)) ∧
      ∀ row ∈ entries, row.1 ∈ root.map (·.1) := by
  simp only [checkBundle, bind_eq_ok, require_eq_ok, pure_eq_ok] at h
  obtain ⟨-, -, sums, -, -, -, -, -, entries', hentries, -, ⟨hfiles, -, hrows⟩, -, -, -,
    ⟨hone, hcount, heach, htotal⟩, -, harchive, -, hassets, -, -, rfl⟩ := h
  obtain ⟨hsourced, hapart⟩ := sourceEntries_ok hentries
  refine ⟨hsourced, hapart, ⟨?_, hcount, heach, htotal, harchive, hassets⟩, hfiles, hrows⟩
  rintro hnil
  rw [hnil] at hone
  exact absurd hone (by decide)

/-! The archive. -/

theorem elim_eq_ok {ε α : Type} {got : Option α} {e : ε} {a : α} :
    got.elim (.error e) .ok = (.ok a : Except ε α) ↔ got = some a := by
  cases got <;> simp

theorem addfile_ok {info : TarInfo} {content part : Text} (h : addfile info content = some part)
    (hlen : content.length = info.size) : ∃ head, createHeader info = some head ∧
      part = head ++ (content ++ nulls (padding 512 content.length)) := by
  simp only [addfile, Option.bind_eq_bind, Option.bind_eq_some_iff, Option.pure_def,
    Option.some.injEq] at h
  obtain ⟨head, hhead, ⟨body, left⟩, hbody, rfl⟩ := h
  obtain ⟨hsplit, hcount⟩ := readExact_eq_some.1 hbody
  have hwhole : body = content :=
    List.IsPrefix.eq_of_length ⟨left, hsplit.symm⟩ (hcount.trans hlen.symm)
  refine ⟨head, hhead, ?_⟩
  rw [hwhole, hlen, List.append_assoc]

theorem member_name (hsha : ∀ t, hashShape.accepts (host.sha t) = true) (name : Text) :
    ("f-".toList ++ host.sha name).length = 66 ∧
      ∀ c ∈ "f-".toList ++ host.sha name, c.toNat < 128 := by
  have hmark : ∀ c ∈ "f-".toList, c.toNat < 128 := by decide
  refine ⟨by rw [List.length_append, length_of_hash (hsha name)]; rfl, fun c hc => ?_⟩
  rcases List.mem_append.1 hc with hc | hc
  · exact hmark c hc
  · have hprinted := isNameChar_printed (isNameChar_of_hex (hashShape_chars (hsha name) c hc))
    omega

/-- The parts that are written fit, and hold the files of the source. -/
theorem tarMembers_ok (hsha : ∀ t, hashShape.accepts (host.sha t) = true)
    (henv : env.sha = host.sha)
    (h : tarMembers host root rows = .ok bytes) (hsourced : ∀ row ∈ rows, Sourced host root row)
    (hbound : ∀ row ∈ rows, row.2.bytes ≤ 134217728)
    (hfind : ∀ row ∈ rows, members.find? (·.member = "f-".toList ++ host.sha row.1) =
      some (memberOf host.sha row)) :
    ∃ parts : List Part, bytes = parts.flatMap Part.bytes ∧
      parts.map (·.row) = rows.map (memberOf host.sha) ∧ (∀ part ∈ parts, part.Fits env members) ∧
      ∀ part ∈ parts, ∃ file, root.lookup part.row.name = some file ∧ part.body = file.content := by
  induction rows generalizing bytes with
  | nil =>
    cases h
    exact ⟨[], rfl, rfl, by simp, by simp⟩
  | cons row rows ih =>
    obtain ⟨hrow, hsourced⟩ := List.forall_mem_cons.1 hsourced
    obtain ⟨hle, hbound⟩ := List.forall_mem_cons.1 hbound
    obtain ⟨hmember, hfind⟩ := List.forall_mem_cons.1 hfind
    obtain ⟨file, hfile, hdigest, hlength, -⟩ := hrow.file
    simp only [tarMembers, bind_eq_ok, pure_eq_ok, find_eq_ok, elim_eq_ok] at h
    obtain ⟨file', hfile', part, hpart, rest, hrest, rfl⟩ := h
    obtain rfl : file = file' := Option.some.inj (hfile.symm.trans hfile')
    obtain ⟨parts, rfl, hrows, hfits, hfiles⟩ := ih hrest hsourced hbound hfind
    obtain ⟨head, hhead, rfl⟩ := addfile_ok hpart hlength
    obtain ⟨hname, hascii⟩ := member_name hsha row.1
    have hheader := (header_created hname hascii hmember
      (lt_of_le_of_lt hle (by decide : 134217728 < 8 ^ 11)) hhead).1
    refine ⟨⟨memberOf host.sha row, head, file.content⟩ :: parts, rfl, ?_,
      List.forall_mem_cons.2 ⟨⟨hheader, hlength, ?_⟩, hfits⟩,
      List.forall_mem_cons.2 ⟨⟨file, hfile, rfl⟩, hfiles⟩⟩
    · rw [List.map_cons, List.map_cons, hrows]
    · rw [henv]
      exact hdigest

theorem length_parts {parts : List Part} (hfits : ∀ part ∈ parts, part.Fits env members) :
    (parts.flatMap Part.bytes).length + 1024 = minimum (parts.map (·.row)) := by
  induction parts with
  | nil => rfl
  | cons part parts ih =>
    obtain ⟨hfit, hfits⟩ := List.forall_mem_cons.1 hfits
    have hpadding := add_padding (n := part.row.bytes) (by decide : 0 < 512)
    have hih := ih hfits
    simp only [minimum] at hih ⊢
    rw [List.flatMap_cons, List.length_append, Part.bytes, List.length_append, List.length_append,
      length_nulls, (header_mem hfit.head).2, hfit.length, List.map_cons, List.map_cons,
      List.sum_cons]
    omega

/-! The outer manifest. -/

def outerRows (host : Host) (entries : List (Text × Row)) (archive descriptor : Text) :
    List (Text × Text) :=
  sortedItems (entries.map (fun row => (row.1, row.2.sha256)) ++
    [(archiveName, host.sha archive), (descriptorName, host.sha descriptor)])

/-- No name is in lower case that of one of the two new files. -/
def Apart {α : Type} (files : List (Text × α)) : Prop :=
  ∀ file ∈ files, lc file.1 ≠ archiveName ∧ lc file.1 ≠ descriptorName

/-- The names of the files are those of the entries and of the manifest. -/
theorem apart_iff (hfiles : ∀ file ∈ root, file.1 = sumsName ∨ file.1 ∈ entries.map (·.1))
    (hrows : ∀ row ∈ entries, row.1 ∈ root.map (·.1)) : Apart root ↔ Apart entries := by
  constructor
  · intro h row hrow
    obtain ⟨file, hfile, hname⟩ := List.mem_map.1 (hrows row hrow)
    exact hname ▸ h file hfile
  · intro h file hfile
    rcases hfiles file hfile with hname | hname
    · rw [hname]
      decide
    · obtain ⟨row, hrow, hsame⟩ := List.mem_map.1 hname
      exact hsame ▸ h row hrow

section Outer
variable {archive descriptor : Text}

theorem mem_outerRows {x : Text × Text} : x ∈ outerRows host entries archive descriptor ↔
    x ∈ entries.map (fun row => (row.1, row.2.sha256)) ∨ x = (archiveName, host.sha archive) ∨
      x = (descriptorName, host.sha descriptor) := by
  rw [outerRows, sortedItems, List.mem_insertionSort, List.mem_append]
  simp

theorem outerRows_nodup (hapart : (entries.map fun row => lc row.1).Nodup) :
    ((outerRows host entries archive descriptor).map fun row => lc row.1).Nodup ↔
    Apart entries := by
  have hperm := (List.perm_insertionSort (fun x y : Text × Text => x.1 ≤ y.1)
    (entries.map (fun row => (row.1, row.2.sha256)) ++
      [(archiveName, host.sha archive), (descriptorName, host.sha descriptor)])).map
        fun row => lc row.1
  have ha : lc archiveName = archiveName := by decide
  have hd : lc descriptorName = descriptorName := by decide
  have hne : archiveName ≠ descriptorName := by decide
  rw [outerRows, sortedItems, hperm.nodup_iff, List.map_append, List.map_map, List.nodup_append]
  simp only [List.map_cons, List.map_nil, ha, hd]
  constructor
  · rintro ⟨-, -, hdisjoint⟩ row hrow
    have hmem : lc row.1 ∈ entries.map ((fun row => lc row.1) ∘ fun row => (row.1, row.2.sha256)) :=
      List.mem_map.2 ⟨row, hrow, rfl⟩
    exact ⟨hdisjoint _ hmem _ (by simp), hdisjoint _ hmem _ (by simp)⟩
  · intro hother
    refine ⟨hapart, by simpa using hne, fun name hname other hnew heq => ?_⟩
    obtain ⟨row, hrow, rfl⟩ := List.mem_map.1 hname
    simp only [List.mem_cons, List.not_mem_nil, or_false] at hnew
    rcases hnew with rfl | rfl
    · exact (hother row hrow).1 heq
    · exact (hother row hrow).2 heq

theorem outerRows_lookup (hapart : (entries.map fun row => lc row.1).Nodup) (hother : Apart entries)
    {name value : Text} (h : (name, value) ∈ outerRows host entries archive descriptor) :
    (outerRows host entries archive descriptor).lookup name = some value := by
  have hnodup : ((outerRows host entries archive descriptor).map fun row => lc row.1).Nodup :=
    (outerRows_nodup hapart).2 hother
  refine Keyed.lookup_of_mem (List.Nodup.of_map lc ?_) h
  rwa [List.map_map]

theorem length_name {name : Text} (h : nameShape.accepts name = true) : name.length ≤ 160 := by
  obtain ⟨c, rest, rfl, -, hrest⟩ := Regex.mem_lang_cls_seq.1 (Regex.accepts_iff.1 h)
  exact Nat.succ_le_succ (Regex.length_le_of_upTo hrest)

theorem outer_accepted (hsha : ∀ t, hashShape.accepts (host.sha t) = true)
    (hsourced : ∀ row ∈ entries, Sourced host root row)
    (hapart : (entries.map fun row => lc row.1).Nodup) (hcount : entries.length ≤ 1220) :
    (outerSums host entries archive descriptor).length ≤ 1048576 ∧
    outerSums host entries archive descriptor ≠ [] ∧
    ∀ sums, manifest (outerSums host entries archive descriptor) = .ok sums ↔
      sums = outerRows host entries archive descriptor ∧ Apart entries := by
  have ha : nameShape.accepts archiveName = true := by decide
  have hd : nameShape.accepts descriptorName = true := by decide
  have hshaped : ∀ row ∈ outerRows host entries archive descriptor, (entryOf row).Shaped := by
    intro row hrow
    rcases mem_outerRows.1 hrow with hrow | rfl | rfl
    · obtain ⟨entry, hentry, rfl⟩ := List.mem_map.1 hrow
      exact ⟨(hsourced entry hentry).hash, (hsourced entry hentry).name⟩
    · exact ⟨hsha archive, ha⟩
    · exact ⟨hsha descriptor, hd⟩
  have hlines : (outerRows host entries archive descriptor).length = entries.length + 2 := by
    rw [outerRows, sortedItems, List.length_insertionSort, List.length_append, List.length_map]
    rfl
  have hne : outerRows host entries archive descriptor ≠ [] := by
    rintro hnil
    rw [hnil] at hlines
    cases hlines
  have hlen : ∀ row ∈ outerRows host entries archive descriptor,
      ((entryOf row).line ++ ['\n']).length ≤ 227 := by
    intro row hrow
    have h64 := length_of_hash (hshaped row hrow).1
    have h160 := length_name (hshaped row hrow).2
    simp only [Entry.line, List.length_append, List.length_cons, List.length_nil]
    omega
  have hsize : (outerSums host entries archive descriptor).length ≤ 1048576 := by
    change ((outerRows host entries archive descriptor).flatMap fun row =>
      (entryOf row).line ++ ['\n']).length ≤ 1048576
    rw [List.length_flatMap]
    refine (List.sum_le_card_nsmul _ 227 fun n hn => ?_).trans ?_
    · obtain ⟨row, hrow, rfl⟩ := List.mem_map.1 hn
      exact hlen row hrow
    · change (List.map _ (outerRows host entries archive descriptor)).length * 227 ≤ 1048576
      rw [List.length_map, hlines]
      omega
  have hnonempty : outerSums host entries archive descriptor ≠ [] := by
    change ((outerRows host entries archive descriptor).flatMap fun row =>
      (entryOf row).line ++ ['\n']) ≠ []
    cases hrows : outerRows host entries archive descriptor with
    | nil => exact absurd hrows hne
    | cons row rows => simp
  refine ⟨hsize, hnonempty, fun sums => ?_⟩
  have hnodup : ((outerRows host entries archive descriptor).map fun row => lc row.1).Nodup ↔
      Apart entries := outerRows_nodup hapart
  rw [← hnodup]
  exact manifest_eq_ok hshaped hne hsize

end Outer

end Foxhole.Bundle
