import Foxhole.BundleFits
import Foxhole.BundleHeader

/-! The manifest and the descriptor of a bundle transport: what is written is accepted. -/
namespace Foxhole.Bundle
open Check Text Address Blocks

variable {rows sums : List (Text × Text)} {row : Text × Text} {lines : List Text}

/-! The manifest. -/

def entryOf (row : Text × Text) : Entry := ⟨row.1, row.2⟩

/-- The letters of a name. -/
def isNameChar (c : Char) : Bool := isAlnum c || c ∈ ['_', '.', '-']

theorem isNameChar_plain {c : Char} (h : isNameChar c = true) :
    c ≠ '\n' ∧ c ≠ '"' ∧ c ≠ '\\' ∧ c ≠ ' ' := by
  refine ⟨?_, ?_, ?_, ?_⟩ <;> rintro rfl <;> exact absurd h (by decide)

theorem nameShape_chars {name : Text} (h : nameShape.accepts name = true) :
    ∀ c ∈ name, isNameChar c = true := by
  refine Regex.Within.forall_mem (r := nameShape) ?_ (Regex.accepts_iff.1 h)
  refine ⟨fun c hc => ?_, Regex.Within.upTo fun c hc => ?_⟩
  · simp only [isNameChar, hc, Bool.true_or]
  · exact hc

theorem hashShape_chars {value : Text} (h : hashShape.accepts value = true) :
    ∀ c ∈ value, isHex c = true := (Regex.accepts_rep_cls.1 h).2

theorem Entry.Shaped.plain {entry : Entry} (h : entry.Shaped) : '\n' ∉ entry.line := by
  have hhash : '\n' ∉ entry.sha256 := fun hc => absurd (hashShape_chars h.1 _ hc) (by decide)
  have hname : '\n' ∉ entry.name := fun hc => absurd (nameShape_chars h.2 _ hc) (by decide)
  simp [Entry.line, hhash, hname]

/-- The lines of a text whose lines all end. -/
theorem lines_of_text (hlines : ∀ line ∈ lines, line ≠ [] ∧ '\n' ∉ line) :
    ((lines.flatMap (· ++ ['\n'])).splitOn '\n').filter (fun line => line ≠ []) = lines := by
  induction lines with
  | nil => simp
  | cons line lines ih =>
    obtain ⟨⟨hne, hplain⟩, hlines⟩ := List.forall_mem_cons.1 hlines
    have hsplit : ((line :: lines).flatMap (· ++ ['\n'])).splitOn '\n' =
        line :: (lines.flatMap (· ++ ['\n'])).splitOn '\n' := by
      rw [List.flatMap_cons, List.append_assoc, List.singleton_append]
      exact List.splitOn_append_cons_self_of_not_mem hplain _
    rw [hsplit, List.filter_cons_of_pos (by simpa using hne), ih hlines]

theorem manifestLine_eq_ok {seen : List Text} {line : Text} : manifestLine seen line = .ok row ↔
    line = (entryOf row).line ∧ (entryOf row).Shaped ∧ lc row.1 ∉ seen := by
  unfold manifestLine
  constructor
  · split
    · rintro ⟨⟩
    · next entry hentry =>
      intro h
      simp only [bind_eq_ok, require_eq_ok, pure_eq_ok] at h
      obtain ⟨-, hnew, rfl⟩ := h
      obtain ⟨hline, hshaped⟩ := matchLine_eq_some.1 hentry
      exact ⟨hline, hshaped, hnew⟩
  · rintro ⟨hline, hshaped, hnew⟩
    rw [matchLine_eq_some.2 ⟨hline, hshaped⟩]
    simp only [bind_eq_ok, require_eq_ok, pure_eq_ok]
    exact ⟨(), hnew, rfl⟩

theorem line_map_inj (hsums : ∀ row ∈ sums, (entryOf row).Shaped)
    (hrows : ∀ row ∈ rows, (entryOf row).Shaped)
    (h : sums.map (fun row => (entryOf row).line) = rows.map fun row => (entryOf row).line) :
    sums = rows := by
  induction sums generalizing rows with
  | nil => exact (List.map_eq_nil_iff.1 h.symm).symm
  | cons a sums ih =>
    cases rows with
    | nil => cases h
    | cons b rows =>
      obtain ⟨ha, hsums⟩ := List.forall_mem_cons.1 hsums
      obtain ⟨hb, hrows⟩ := List.forall_mem_cons.1 hrows
      rw [List.map_cons, List.map_cons, List.cons.injEq] at h
      have hentry : entryOf a = entryOf b := Option.some.inj
        ((matchLine_eq_some.2 ⟨rfl, ha⟩).symm.trans (matchLine_eq_some.2 ⟨h.1, hb⟩))
      rw [ih hsums hrows h.2, Prod.ext (congrArg Entry.name hentry) (congrArg Entry.sha256 hentry)]

/-- A text of such lines is accepted when no two names are the same in lower case. -/
theorem manifest_eq_ok (hshaped : ∀ row ∈ rows, (entryOf row).Shaped) (hne : rows ≠ [])
    (hsize : (rows.flatMap fun row => (entryOf row).line ++ ['\n']).length ≤ 1048576) :
    manifest (rows.flatMap fun row => (entryOf row).line ++ ['\n']) = .ok sums ↔
      sums = rows ∧ (rows.map fun row => lc row.1).Nodup := by
  have hscan : scan (fun row : Text × Text => [lc row.1]) manifestLine []
      (rows.map fun row => (entryOf row).line) = .ok sums ↔
      sums = rows ∧ (rows.map fun row => lc row.1).Nodup := by
    rw [scan_eq_ok_iff (k := fun row : Text × Text => lc row.1)
      fun seen line row => manifestLine_eq_ok]
    constructor
    · rintro ⟨hlines, hall, hapart⟩
      have hsame : sums = rows := line_map_inj (fun row hrow => (hall row hrow).1)
          hshaped hlines.symm
      exact ⟨hsame, hsame ▸ hapart⟩
    · rintro ⟨rfl, hapart⟩
      exact ⟨rfl, fun row hrow => ⟨hshaped row hrow, by simp⟩, hapart⟩
  have hlines : ∀ line ∈ rows.map fun row => (entryOf row).line, line ≠ [] ∧ '\n' ∉ line := by
    intro line hline
    obtain ⟨row, hrow, rfl⟩ := List.mem_map.1 hline
    exact ⟨by simp [Entry.line], (hshaped row hrow).plain⟩
  have htext : (rows.flatMap fun row => (entryOf row).line ++ ['\n']) =
      (rows.map fun row => (entryOf row).line).flatMap (· ++ ['\n']) := by
    rw [List.flatMap_map]
  have hnonempty : (rows.flatMap fun row => (entryOf row).line ++ ['\n']) ≠ [] := by
    cases rows with
    | nil => exact absurd rfl hne
    | cons row rows => simp
  simp only [manifest, bind_eq_ok, require_eq_ok, pure_eq_ok]
  rw [← hscan]
  constructor
  · rintro ⟨-, -, found, hfound, -, -, rfl⟩
    rwa [htext, lines_of_text hlines] at hfound
  · intro hfound
    obtain ⟨rfl, -⟩ := hscan.1 hfound
    refine ⟨(), ⟨hnonempty, hsize⟩, sums, ?_, (), hne, rfl⟩
    rwa [htext, lines_of_text hlines]

/-! The descriptor. -/

def archiveJson (archive : Row) : Json :=
  .object [("bytes".toList, .int archive.bytes), ("file".toList, .string archiveName),
    ("sha256".toList, .string archive.sha256)]

def rowJson (row : Row) : Json :=
  .object [("bytes".toList, .int row.bytes), ("sha256".toList, .string row.sha256)]

/-- What the descriptor is read as: its text has its keys sorted. -/
def parsed (archive : Row) (rows : List (Text × Row)) : Json :=
  .object [("archive".toList, archiveJson archive),
    ("entries".toList, .object (rows.map fun row => (row.1, rowJson row.2))),
    ("schema".toList, .int 1)]

def memberOf (digest : Text → Text) (row : Text × Row) : Member :=
  ⟨"f-".toList ++ digest row.1, row.1, row.2.sha256, row.2.bytes⟩

/-- What `descriptor` asks of an entry. -/
structure Entered (sums : List (Text × Text)) (row : Text × Row) : Prop where
  name : logicalName row.1 = true
  folded : lc row.1 ∉ FOLDED
  hash : hashShape.accepts row.2.sha256 = true
  sum : sums.lookup row.1 = some row.2.sha256
  bytes : row.2.bytes ≤ 134217728

theorem number_int {n maximum : ℕ} (h : n ≤ maximum) : number (.int n) maximum = some n := by
  simp [number, Json.int?, h]

theorem hash_string {t : Text} (h : hashShape.accepts t = true) : hash (.string t) = some t := by
  simp [hash, Json.string?, h]

theorem descriptorEntry_eq {sums : List (Text × Text)} {memberDigest : Text → Checked Text}
    {digest : Text → Text} {seen : List Met} {row : Text × Row} (h : Entered sums row)
    (hdigest : memberDigest row.1 = .ok (digest row.1)) (hname : .name (lc row.1) ∉ seen)
    (hmember : .member ("f-".toList ++ digest row.1) ∉ seen) :
    descriptorEntry sums memberDigest seen (row.1, rowJson row.2) = .ok (memberOf digest row) := by
  have hexact : exact (rowJson row.2) ["sha256".toList, "bytes".toList] = .ok () := by
    simp [exact, rowJson, Json.members?]
  have hsha : (rowJson row.2).get "sha256".toList = .string row.2.sha256 := rfl
  have hbytes : (rowJson row.2).get "bytes".toList = .int row.2.bytes := rfl
  simp only [descriptorEntry, hsha, hbytes, hash_string h.hash, number_int h.bytes, hdigest,
    Option.elim_some, bind_eq_ok, require_eq_ok, pure_eq_ok]
  exact ⟨(), hexact, (), ⟨h.name, hname, h.folded⟩, _, rfl, (), h.sum, _, rfl, _, rfl, (),
    hmember, rfl⟩

theorem scan_entries {entries : List (Text × Row)} {sums : List (Text × Text)}
    {memberDigest : Text → Checked Text} {digest : Text → Text}
    (hentered : ∀ row ∈ entries, Entered sums row)
    (hdigest : ∀ row ∈ entries, memberDigest row.1 = .ok (digest row.1))
    (hnames : (entries.map fun row => lc row.1).Nodup)
    (hmembers : (entries.map fun row => digest row.1).Nodup) :
    scan (fun row : Member => [Met.name (lc row.name), .member row.member])
      (descriptorEntry sums memberDigest) [] (entries.map fun row => (row.1, rowJson row.2)) =
      .ok (entries.map (memberOf digest)) := by
  have hform : (entries.map fun row : Text × Row => (row.1, rowJson row.2)) =
      (entries.map (memberOf digest)).map fun row =>
      (row.name, rowJson ⟨row.sha256, row.bytes⟩) := by
    rw [List.map_map]
    rfl
  rw [hform]
  refine scan_of_scanned (P := fun _ member => ∃ row, Entered sums row ∧
    memberDigest row.1 = .ok (digest row.1) ∧ memberOf digest row = member)
    (fun seen member hmember hnew => ?_) (scanned_of_nodup (fun member hmember => ?_) ?_ (by simp))
  · obtain ⟨row, hrow, hd, rfl⟩ := hmember
    rw [List.disjoint_cons_left, List.disjoint_cons_left] at hnew
    exact descriptorEntry_eq hrow hd hnew.1 hnew.2.1
  · obtain ⟨row, hrow, rfl⟩ := List.mem_map.1 hmember
    exact ⟨row, hentered row hrow, hdigest row hrow, rfl⟩
  · rw [List.nodup_flatMap]
    refine ⟨fun member _ => by simp, ?_⟩
    have hpairs := (List.pairwise_map.1 hnames).and (List.pairwise_map.1 hmembers)
    refine List.pairwise_map.2 (hpairs.imp fun {a b} hne => ?_)
    simpa [memberOf, Function.onFun, eq_comm] using hne

theorem descriptor_eq {archive : Row} {entries : List (Text × Row)} {sums : List (Text × Text)}
    {memberDigest : Text → Checked Text} {digest : Text → Text}
    (hsha : hashShape.accepts archive.sha256 = true)
    (hsum : sums.lookup archiveName = some archive.sha256) (hbytes : archive.bytes ≤ 536870912)
    (hblocks : 1024 ≤ archive.bytes ∧ archive.bytes % 512 = 0) (hne : entries ≠ [])
    (hcount : entries.length ≤ 1024) (hentered : ∀ row ∈ entries, Entered sums row)
    (hdigest : ∀ row ∈ entries, memberDigest row.1 = .ok (digest row.1))
    (hnames : (entries.map fun row => lc row.1).Nodup)
    (hmembers : (entries.map fun row => digest row.1).Nodup)
    (htotal : (entries.map (·.2.bytes)).sum ≤ 2147483648)
    (hmin : minimum (entries.map (memberOf digest)) ≤ archive.bytes)
    (hmax : archive.bytes ≤ minimum (entries.map (memberOf digest)) + 10240) :
    descriptor (parsed archive entries) sums memberDigest = .ok
      ⟨⟨archiveName, archive.sha256, archive.bytes⟩, entries.map (memberOf digest),
        (entries.map (·.2.bytes)).sum⟩ := by
  have hscan : scan (fun row : Member => [Met.name (lc row.name), .member row.member])
      (descriptorEntry sums memberDigest) [] (entries.map fun row => (row.1, rowJson row.2)) =
      .ok (entries.map (memberOf digest)) := scan_entries hentered hdigest hnames hmembers
  have hexact : exact (parsed archive entries)
      ["schema".toList, "archive".toList, "entries".toList] = .ok () := by
    simp [exact, parsed, Json.members?]
  have hexact' : exact (archiveJson archive) ["file".toList, "sha256".toList, "bytes".toList] =
      .ok () := by
    simp [exact, archiveJson, Json.members?]
  have hentries : (parsed archive entries).get "entries".toList =
      .object (entries.map fun row => (row.1, rowJson row.2)) := rfl
  have harchive : (parsed archive entries).get "archive".toList = archiveJson archive := rfl
  have hschema : (parsed archive entries).get "schema".toList = .int 1 := rfl
  have hsha' : (archiveJson archive).get "sha256".toList = .string archive.sha256 := rfl
  have hbytes' : (archiveJson archive).get "bytes".toList = .int archive.bytes := rfl
  have hsumOf : ((entries.map (memberOf digest)).map (·.bytes)).sum =
      (entries.map (·.2.bytes)).sum := by
    rw [List.map_map]
    rfl
  simp only [descriptor, harchive, hschema, hentries, hsha', hbytes', hash_string hsha,
    number_int hbytes, Option.elim_some, bind_eq_ok, require_eq_ok, pure_eq_ok]
  refine ⟨(), hexact, (), hexact', (), ⟨rfl, rfl⟩, _, rfl, (), hsum, _, rfl, (),
    hblocks, _, rfl, (),
    ⟨?_, ?_⟩, _, hscan, (), ⟨?_, hmin, hmax⟩, ?_⟩
  · simpa using hne
  · simpa using hcount
  · rw [hsumOf]
    exact htotal
  · rw [hsumOf]
    rfl

/-! The text of the descriptor. -/

theorem quote_plain {t : Text} (h : ∀ c ∈ t, 32 ≤ c.toNat ∧ c.toNat < 127 ∧ c ≠ '"' ∧ c ≠ '\\') :
    quote t = '"' :: t ++ ['"'] := by
  have hescape : t.flatMap escape = t := by
    induction t with
    | nil => rfl
    | cons c t ih =>
      obtain ⟨⟨hlo, hhi, hq, hb⟩, ht⟩ := List.forall_mem_cons.1 h
      have hc : escape c = [c] := by simp [escape, hlo, hhi, hq, hb]
      rw [List.flatMap_cons, hc, ih ht, List.singleton_append]
  rw [quote, hescape]

theorem between {a b c : Char} (h : (a ≤ c && c ≤ b) = true) :
    a.toNat ≤ c.toNat ∧ c.toNat ≤ b.toNat := by
  simp only [Bool.and_eq_true, decide_eq_true_eq, Char.le_def, UInt32.le_iff_toNat_le] at h
  exact h

theorem isNameChar_printed {c : Char} (h : isNameChar c = true) : 32 ≤ c.toNat ∧ c.toNat < 127 := by
  simp only [isNameChar, isAlnum, isDigit, isLower, isUpper, Bool.or_eq_true,
    decide_eq_true_eq] at h
  rcases h with ((h | h) | h) | h
  · have hr := between h
    exact ⟨le_trans (by decide) hr.1, lt_of_le_of_lt hr.2 (by decide)⟩
  · have hr := between h
    exact ⟨le_trans (by decide) hr.1, lt_of_le_of_lt hr.2 (by decide)⟩
  · have hr := between h
    exact ⟨le_trans (by decide) hr.1, lt_of_le_of_lt hr.2 (by decide)⟩
  · simp only [List.mem_cons, List.not_mem_nil, or_false] at h
    rcases h with rfl | rfl | rfl <;> decide

theorem isNameChar_of_hex {c : Char} (h : isHex c = true) : isNameChar c = true := by
  simp only [isHex, Bool.or_eq_true, Bool.and_eq_true] at h
  simp only [isNameChar, isAlnum, isLower, Bool.or_eq_true, Bool.and_eq_true, decide_eq_true_eq]
  rcases h with h | h
  · exact .inl (.inl (.inl h))
  · exact .inl (.inl (.inr ⟨of_decide_eq_true h.1, le_trans (of_decide_eq_true h.2) (by decide)⟩))

theorem quote_name {t : Text} (h : ∀ c ∈ t, isNameChar c = true) : quote t = '"' :: t ++ ['"'] :=
  quote_plain fun c hc => ⟨(isNameChar_printed (h c hc)).1, (isNameChar_printed (h c hc)).2,
    (isNameChar_plain (h c hc)).2.1, (isNameChar_plain (h c hc)).2.2.1⟩

theorem quote_hash {t : Text} (h : hashShape.accepts t = true) : quote t = '"' :: t ++ ['"'] :=
  quote_name fun c hc => isNameChar_of_hex (hashShape_chars h c hc)

theorem dumps_int (n : ℕ) : (Json.int n).dumps = decimal n := by simp [Json.dumps]

/-- An entry of the descriptor as it is written. -/
def rowText (row : Row) : Text :=
  "\x7b\"bytes\":".toList ++ decimal row.bytes ++ ",\"sha256\":\"".toList ++ row.sha256 ++
    "\"\x7d".toList

theorem sortedItems_pair {a b : Text} {x y : Text} (h : ¬ a ≤ b) :
    sortedItems [(a, x), (b, y)] = [(b, y), (a, x)] := by
  simp only [sortedItems, List.insertionSort_cons, List.insertionSort_nil, List.orderedInsert_nil,
    List.orderedInsert_cons, if_neg h]

theorem sortedItems_up {a b c : Text} {x y z : Text} (hab : a ≤ b) (hbc : ¬ b ≤ c) (hac : ¬ a ≤ c) :
    sortedItems [(a, x), (b, y), (c, z)] = [(c, z), (a, x), (b, y)] := by
  simp only [sortedItems, List.insertionSort_cons, List.insertionSort_nil, List.orderedInsert_nil,
    List.orderedInsert_cons, if_neg hbc, if_neg hac, if_pos hab]

theorem sortedItems_down {a b c : Text} {x y z : Text} (hbc : b ≤ c) (hab : ¬ a ≤ b)
    (hac : ¬ a ≤ c) :
    sortedItems [(a, x), (b, y), (c, z)] = [(b, y), (c, z), (a, x)] := by
  simp only [sortedItems, List.insertionSort_cons, List.insertionSort_nil, List.orderedInsert_nil,
    List.orderedInsert_cons, if_neg hab, if_neg hac, if_pos hbc]

theorem quote_key {key : Text} (h : key.all isNameChar = true) : quote key = '"' :: key ++ ['"'] :=
  quote_name (List.all_eq_true.1 h)

theorem dumps_pair {a b : Text} {x y : Json} (h : ¬ a ≤ b) :
    (Json.object [(a, x), (b, y)]).dumps =
      '{' :: (quote b ++ ':' :: y.dumps ++ ',' :: (quote a ++ ':' :: x.dumps)) ++ ['}'] := by
  have hmembers : dumpsMembers [(a, x), (b, y)] = [(a, x.dumps), (b, y.dumps)] := by
    rw [dumpsMembers, dumpsMembers, dumpsMembers]
  rw [Json.dumps, hmembers, sortedItems_pair h]
  simp [join, List.intercalate]

/-- The letters of a row, whatever its keys and the pieces between its values. -/
theorem row_written {b s opened middle closed bytes sha256 : Text}
    (ho : opened = '{' :: '"' :: b ++ ['"', ':'])
    (hm : middle = ',' :: '"' :: s ++ ['"', ':', '"']) (hc : closed = ['"', '}']) :
    '{' :: (('"' :: b ++ ['"']) ++ ':' :: bytes ++ ',' :: (('"' :: s ++ ['"']) ++ ':' ::
      ('"' :: sha256 ++ ['"']))) ++ ['}'] = opened ++ bytes ++ middle ++ sha256 ++ closed := by
  rw [ho, hm, hc]
  simp only [List.append_assoc, List.cons_append, List.nil_append]

theorem dumps_row (row : Row) (hhash : hashShape.accepts row.sha256 = true) :
    (Json.object [("sha256".toList, .string row.sha256), ("bytes".toList, .int row.bytes)]).dumps =
      rowText row := by
  have hle : ¬ "sha256".toList ≤ "bytes".toList := by decide
  have hsha : quote "sha256".toList = '"' :: "sha256".toList ++ ['"'] := quote_key (by decide)
  have hbytes : quote "bytes".toList = '"' :: "bytes".toList ++ ['"'] := quote_key (by decide)
  have hdumps := dumps_pair (x := .string row.sha256) (y := .int row.bytes) hle
  rw [dumps_int, Json.dumps, hsha, hbytes, quote_hash hhash] at hdumps
  exact hdumps.trans (row_written (b := "bytes".toList) (s := "sha256".toList) (by decide)
    (by decide) (by decide))

theorem sortedItems_map {α β : Type} (f : α → β) (rows : List (Text × α)) :
    sortedItems (rows.map fun row => (row.1, f row.2)) =
      (sortedItems rows).map fun row => (row.1, f row.2) :=
  (List.map_insertionSort (fun x y : Text × α => x.1 ≤ y.1) (fun x y : Text × β => x.1 ≤ y.1)
    (fun row => (row.1, f row.2)) rows fun _ _ _ _ => Iff.rfl).symm

theorem dumpsMembers_map {α : Type} (f : α → Text × Json) (l : List α) :
    dumpsMembers (l.map f) = l.map fun a => ((f a).1, (f a).2.dumps) := by
  induction l with
  | nil => rw [List.map_nil, List.map_nil, dumpsMembers]
  | cons a l ih => rw [List.map_cons, List.map_cons, dumpsMembers, ih]

/-- An entry with its name. -/
def entryText (row : Text × Row) : Text := quote row.1 ++ ':' :: rowText row.2

theorem dumps_entries {rows : List (Text × Row)}
    (hhash : ∀ row ∈ rows, hashShape.accepts row.2.sha256 = true) :
    (Json.object (rows.map fun row => (row.1, .object [("sha256".toList, .string row.2.sha256),
      ("bytes".toList, .int row.2.bytes)]))).dumps =
      '{' :: join ((sortedItems rows).map entryText) ++ ['}'] := by
  have hrows : (rows.map fun row => (row.1, (Json.object [("sha256".toList, .string row.2.sha256),
      ("bytes".toList, .int row.2.bytes)]).dumps)) = rows.map fun row => (row.1, rowText row.2) :=
    List.map_congr_left fun row hrow => by rw [dumps_row row.2 (hhash row hrow)]
  rw [Json.dumps, dumpsMembers_map, hrows, sortedItems_map, List.map_map]
  rfl

/-- The letters of an archive row, whatever its keys and the pieces between its values. -/
theorem archive_written {b f s n opened middle closed bytes sha256 : Text}
    (ho : opened = '{' :: '"' :: b ++ ['"', ':'])
    (hm : middle = ',' :: '"' :: f ++ '"' :: ':' :: '"' :: n ++ '"' :: ',' :: '"' :: s ++
      ['"', ':', '"'])
    (hc : closed = ['"', '}']) :
    '{' :: join
      [('"' :: b ++ ['"']) ++ ':' :: bytes, ('"' :: f ++ ['"']) ++ ':' :: ('"' :: n ++ ['"']),
      ('"' :: s ++ ['"']) ++ ':' :: ('"' :: sha256 ++ ['"'])] ++ ['}'] =
      opened ++ bytes ++ middle ++ sha256 ++ closed := by
  rw [ho, hm, hc, join]
  simp [List.intercalate]

/-- The archive of the descriptor as it is written. -/
def archiveText (archive : Row) : Text :=
  "\x7b\"bytes\":".toList ++ decimal archive.bytes ++
    ",\"file\":\"native-install.tar\",\"sha256\":\"".toList ++ archive.sha256 ++ "\"\x7d".toList

theorem dumps_archive (archive : Row) (hhash : hashShape.accepts archive.sha256 = true) :
    (Json.object [("file".toList, .string archiveName), ("sha256".toList, .string archive.sha256),
      ("bytes".toList, .int archive.bytes)]).dumps = archiveText archive := by
  have hfs : "file".toList ≤ "sha256".toList := by decide
  have hsb : ¬ "sha256".toList ≤ "bytes".toList := by decide
  have hfb : ¬ "file".toList ≤ "bytes".toList := by decide
  have hsha : quote "sha256".toList = '"' :: "sha256".toList ++ ['"'] := quote_key (by decide)
  have hbytes : quote "bytes".toList = '"' :: "bytes".toList ++ ['"'] := quote_key (by decide)
  have hfile : quote "file".toList = '"' :: "file".toList ++ ['"'] := quote_key (by decide)
  have hname : quote archiveName = '"' :: archiveName ++ ['"'] := quote_key (by decide)
  rw [Json.dumps, dumpsMembers, dumpsMembers, dumpsMembers, dumpsMembers, dumps_int, Json.dumps,
    Json.dumps, sortedItems_up hfs hsb hfb, List.map_cons, List.map_cons, List.map_cons,
      List.map_nil,
    hsha, hbytes, hfile, hname, quote_hash hhash]
  exact archive_written (by decide) (by decide) (by decide)

/-- The letters of a descriptor, whatever its keys and the pieces between its values. -/
theorem descriptor_written {a e s opened middle closed archive entries archived : Text}
    (ho : opened = '{' :: '"' :: a ++ ['"', ':'])
    (hm : middle = ',' :: '"' :: e ++ ['"', ':', '{'])
    (hc : closed = '}' :: ',' :: '"' :: s ++ ['"', ':', '1', '}'])
    (ha : archived = opened ++ archive) :
    '{' :: join [('"' :: a ++ ['"']) ++ ':' :: archive,
      ('"' :: e ++ ['"']) ++ ':' :: ('{' :: entries ++ ['}']), ('"' :: s ++ ['"']) ++
      ':' :: ['1']] ++
      ['}'] = archived ++ middle ++ entries ++ closed := by
  rw [ha, ho, hm, hc, join]
  simp [List.intercalate]

theorem dumps_transport {archive : Row} {archived : List (Text × Row)}
    (harchive : hashShape.accepts archive.sha256 = true)
    (hhash : ∀ row ∈ archived, hashShape.accepts row.2.sha256 = true) :
    (transport archive archived).dumps = "\x7b\"archive\":".toList ++ archiveText archive ++
      ",\"entries\":\x7b".toList ++ join ((sortedItems archived).map entryText) ++
      "\x7d,\"schema\":1\x7d".toList := by
  have hae : "archive".toList ≤ "entries".toList := by decide
  have hsa : ¬ "schema".toList ≤ "archive".toList := by decide
  have hse : ¬ "schema".toList ≤ "entries".toList := by decide
  have hschema : quote "schema".toList = '"' :: "schema".toList ++ ['"'] := quote_key (by decide)
  have ha : quote "archive".toList = '"' :: "archive".toList ++ ['"'] := quote_key (by decide)
  have hentries : quote "entries".toList = '"' :: "entries".toList ++ ['"'] := quote_key (by decide)
  have hone : (Json.int 1).dumps = ['1'] := by decide
  rw [transport, Json.dumps, dumpsMembers, dumpsMembers, dumpsMembers, dumpsMembers, hone,
    dumps_archive archive harchive, dumps_entries hhash, sortedItems_down hae hsa hse,
      List.map_cons,
    List.map_cons, List.map_cons, List.map_nil, hschema, ha, hentries]
  exact descriptor_written (by decide) (by decide) (by decide) rfl

theorem entry_pieces {name a o bytes m sha256 c : Text} (ha : a = '"' :: ':' :: o) :
    '"' :: name ++ a ++ bytes ++ m ++ sha256 ++ c =
      ('"' :: name ++ ['"']) ++ ':' :: (o ++ bytes ++ m ++ sha256 ++ c) := by
  rw [ha]
  simp

theorem canonical_pieces {o b ob bytes m sha256 c e ce entries s : Text} (hob : ob = o ++ b)
    (hce : ce = c ++ e) : ob ++ bytes ++ m ++ sha256 ++ ce ++ entries ++ s ++ ['\n'] =
      o ++ (b ++ bytes ++ m ++ sha256 ++ c) ++ e ++ entries ++ s ++ ['\n'] := by
  rw [hob, hce]
  simp only [List.append_assoc]

/-- What the reader takes for the text of a descriptor. -/
theorem canonical_written {value : Descriptor} {archive : Row} {rows : List (Text × Row)}
    {digest : Text → Text} (ha : value.archive = ⟨archiveName, archive.sha256, archive.bytes⟩)
    (hmembers : value.members = rows.map (memberOf digest))
    (hsorted : rows.Pairwise fun a b => a.1 ≤ b.1)
    (hnames : ∀ row ∈ rows, ∀ c ∈ row.1, isNameChar c = true) :
    canonicalDescriptor value = "\x7b\"archive\":".toList ++ archiveText archive ++
      ",\"entries\":\x7b".toList ++ join (rows.map entryText) ++ "\x7d,\"schema\":1\x7d".toList ++
      ['\n'] := by
  have hsame : value.members.insertionSort (·.name ≤ ·.name) = value.members := by
    rw [hmembers]
    exact List.Pairwise.insertionSort_eq (List.pairwise_map.2 hsorted)
  have hrows : (value.members.map fun row =>
      '"' :: row.name ++ "\":\x7b\"bytes\":".toList ++ decimal row.bytes ++
        ",\"sha256\":\"".toList ++
        row.sha256 ++ "\"\x7d".toList) = rows.map entryText := by
    rw [hmembers, List.map_map]
    refine List.map_congr_left fun row hrow => ?_
    rw [entryText, quote_name (hnames row hrow)]
    exact entry_pieces (by decide)
  unfold canonicalDescriptor
  rewrite [hsame, hrows, ha]
  exact canonical_pieces (by decide) (by decide)

/-- The producer's text of the descriptor is the one that the reader asks for. -/
theorem dumps_canonical {value : Descriptor} {archive : Row} {archived : List (Text × Row)}
    {digest : Text → Text} (harchive : hashShape.accepts archive.sha256 = true)
    (ha : value.archive = ⟨archiveName, archive.sha256, archive.bytes⟩)
    (hmembers : value.members = (sortedItems archived).map (memberOf digest))
    (hhash : ∀ row ∈ archived, hashShape.accepts row.2.sha256 = true)
    (hnames : ∀ row ∈ archived, ∀ c ∈ row.1, isNameChar c = true) :
    (transport archive archived).dumps ++ ['\n'] = canonicalDescriptor value := by
  have hsorted : (sortedItems archived).Pairwise fun a b => a.1 ≤ b.1 :=
    List.pairwise_insertionSort _ _
  have hsame : ∀ row ∈ sortedItems archived, row ∈ archived := fun row hrow =>
    (List.perm_insertionSort _ _).subset hrow
  rw [dumps_transport harchive hhash, canonical_written ha hmembers hsorted fun row hrow =>
    hnames row (hsame row hrow)]

end Foxhole.Bundle
