import Foxhole.HistoryPreview

/-! The history file as a text, its index, and which of its rows a new file keeps. -/
namespace Foxhole.History
open Check Json Thinning

variable {α : Type}

/-! The file: one row a line. -/

/-- `[`, the rows with a comma and a line break between them, and `]`. -/
def fileText (texts : List Text) : Text := '[' :: ([',', '\n'].intercalate texts ++ [']'])

/-- A row of the file as a JSON element, behind the line break in front of it. -/
def lineItem (text : Text) : Item := ⟨['\n'], text, []⟩

def fileItems : List Text → List Item
  | [] => []
  | text :: texts => ⟨[], text, []⟩ :: texts.map lineItem

def fileListing (texts : List Text) : Listing := ⟨[], fileItems texts, [], []⟩

variable {json : Text → Option α} {view : α → Option (ℤ × Bool)} {texts : List Text} {now : ℤ}

theorem joined_lines (lead text : Text) :
    joined (⟨lead, text, []⟩ :: texts.map lineItem) =
      lead ++ [',', '\n'].intercalate (text :: texts) := by
  induction texts generalizing lead text with
  | nil => simp [joined, Item.text]
  | cons next texts ih =>
    have hih := ih ['\n'] next
    rw [List.map_cons, joined, List.intercalate_cons_cons]
    · change _ ++ ',' :: joined (⟨['\n'], next, []⟩ :: texts.map lineItem) = _
      rw [hih]
      simp [Item.text]
    · simp

theorem fileListing_text : (fileListing texts).text = fileText texts := by
  cases texts with
  | nil => rfl
  | cons text texts =>
    simp [fileListing, Listing.text, Listing.body, fileItems, fileText, joined_lines]

theorem fileListing_ok (h : ∀ text ∈ texts, Derives .value text) : (fileListing texts).Ok := by
  refine ⟨by simp [fileListing, Blank], ?_, by simp [fileListing, Blank], by
    simp [fileListing, Blank]⟩
  have hline : Blank ['\n'] := by simp [Blank, isBlank]
  cases texts with
  | nil => simp [fileListing, fileItems]
  | cons text texts =>
    obtain ⟨htext, htexts⟩ := List.forall_mem_cons.1 h
    intro item hitem
    rcases List.mem_cons.1 hitem with rfl | hitem
    · exact ⟨by simp [Blank], htext, by simp [Blank]⟩
    · obtain ⟨next, hnext, rfl⟩ := List.mem_map.1 hitem
      exact ⟨hline, htexts next hnext, by simp [lineItem, Blank]⟩

theorem fileItems_rows : (fileItems texts).map rowText = texts := by
  cases texts with
  | nil => rfl
  | cons text texts =>
    simp [fileItems, rowText, lineItem, Function.comp_def]

theorem fileItems_values : (fileItems texts).map (·.value) = texts := by
  cases texts with
  | nil => rfl
  | cons text texts => simp [fileItems, lineItem, Function.comp_def]

/-! A file is read from its start to its end, or the reading fails. -/

/-- What reading a file of these bytes chunk by chunk can give. -/
def Reads (content : Text) (reader : List (Option Text)) : Prop :=
  ∃ chunks : List Text, (∀ chunk ∈ chunks, chunk ≠ []) ∧
    (reader = chunks.map some ∧ chunks.flatten = content ∨
      ∃ rest, reader = chunks.map some ++ none :: rest)

theorem run_fails (s : Scan α) (chunks : List Text) (hne : ∀ chunk ∈ chunks, chunk ≠ [])
    (rest : List (Option Text)) (r : List (Visit α) × ℕ) :
    s.run json (chunks.map some ++ none :: rest) ≠ .ok r := by
  induction chunks generalizing s with
  | nil => simp [Scan.run]
  | cons chunk chunks ih =>
    obtain ⟨hchunk, hchunks⟩ := List.forall_mem_cons.1 hne
    obtain ⟨c, chunk, rfl⟩ := List.exists_cons_of_ne_nil hchunk
    intro h
    rw [List.map_cons, List.cons_append, Scan.run, bind_eq_ok] at h
    obtain ⟨t, -, ht⟩ := h
    exact ih t hchunks ht

theorem fast_run_fails (s : Fast α) (chunks : List Text) (hne : ∀ chunk ∈ chunks, chunk ≠ [])
    (rest : List (Option Text)) (r : List (Visit α) × ℕ) :
    s.run json (chunks.map some ++ none :: rest) ≠ .ok r := by
  induction chunks generalizing s with
  | nil => simp [Fast.run]
  | cons chunk chunks ih =>
    obtain ⟨hchunk, hchunks⟩ := List.forall_mem_cons.1 hne
    obtain ⟨c, chunk, rfl⟩ := List.exists_cons_of_ne_nil hchunk
    intro h
    simp only [List.map_cons, List.cons_append, Fast.run, bind_eq_ok] at h
    obtain ⟨-, -, t, -, ht⟩ := h
    exact ih t hchunks ht

/-- The visits of a file that `record` has written. -/
def FileVisits (json : Text → Option α) (texts : List Text) (visits : List (Visit α)) : Prop :=
  visits.map Visit.seen = seen json 1 0 (fileItems texts)

theorem seen_file (hjson : Decodes json) (h : ∀ text ∈ texts, Derives .value text) {a : Listing}
    (hok : a.Ok) (htext : a.text = fileText texts) :
    a.before = [] ∧ seen json (a.before.length + 1) 0 a.items = seen json 1 0
      (fileItems texts) := by
  have hfile := fileListing_ok h
  obtain ⟨hbefore, hkeys⟩ := Listing.text_inj hok hfile (htext.trans fileListing_text.symm)
  have hbefore : a.before = [] := hbefore
  refine ⟨hbefore, ?_⟩
  rw [hbefore]
  exact seen_congr hjson hok.items hfile.items hkeys

theorem exact_visits (hjson : Decodes json) (h : ∀ text ∈ texts, Derives .value text)
    {reader : List (Option Text)} (hreads : Reads (fileText texts) reader) {r : List (Visit α) × ℕ}
    (hscan : scanRows json reader = .ok r) : FileVisits json texts r.1 := by
  obtain ⟨chunks, hne, ⟨rfl, hflat⟩ | ⟨rest, rfl⟩⟩ := hreads
  · obtain ⟨-, ⟨a, hok, htext, hseen⟩, -⟩ := (scan_rows_exact hjson chunks hne).2.1 r.1 r.2 hscan
    exact hseen.trans (seen_file hjson h hok (htext.trans hflat)).2
  · exact absurd hscan (run_fails _ chunks hne rest r)

/-! Where a value ends. -/

theorem Number.notBlank {t : Text} (h : Number t) : ∀ c ∈ t, isBlank c = false := by
  have hdigits {d : Text} (hd : Digits d) : ∀ c ∈ d, isBlank c = false := by
    intro c hc
    have hdigit := hd.2 c hc
    by_contra hblank
    simp only [isBlank, Bool.not_eq_false, Bool.or_eq_true, decide_eq_true_eq] at hblank
    rcases hblank with ((rfl | rfl) | rfl) | rfl <;> revert hdigit <;> decide
  obtain ⟨sign, int, frac, exp, rfl, hsign, hint, hfrac, hexp⟩ := h
  intro c hc
  simp only [List.mem_append] at hc
  rcases hc with ((hc | hc) | hc) | hc
  · rcases hsign with rfl | rfl
    · cases hc
    · rw [List.mem_singleton.1 hc]
      decide
  · rcases hint with rfl | ⟨hint, -⟩
    · rw [List.mem_singleton.1 hc]
      decide
    · exact hdigits hint c hc
  · rcases hfrac with rfl | ⟨d, hd, rfl⟩
    · cases hc
    · rcases List.mem_cons.1 hc with rfl | hc
      · decide
      · exact hdigits hd c hc
  · rcases hexp with rfl | ⟨e, s, d, he, hs, hd, rfl⟩
    · cases hc
    · rcases List.mem_cons.1 hc with rfl | hc
      · rcases he with rfl | rfl <;> decide
      · rcases List.mem_append.1 hc with hc | hc
        · rcases hs with rfl | rfl | rfl
          · cases hc
          · rw [List.mem_singleton.1 hc]
            decide
          · rw [List.mem_singleton.1 hc]
            decide
        · exact hdigits hd c hc

theorem value_last {v : Text} (h : Derives .value v) {c : Char} (hc : v.getLast? = some c) :
    isBlank c = false := by
  cases h with
  | word h =>
    simp only [List.mem_cons, List.not_mem_nil, or_false] at h
    rcases h with rfl | rfl | rfl <;> revert hc <;> simp <;> rintro rfl <;> decide
  | number h => exact Number.notBlank h c (List.mem_of_getLast? hc)
  | string | emptyArray | array | emptyObject | object =>
    rw [← List.cons_append, List.getLast?_concat] at hc
    cases hc
    decide

/-- White space behind a value is not part of it. -/
theorem trail_nil {item : Item} (hok : item.Ok) (h : Derives .value (rowText item)) :
    item.trail = [] := by
  by_contra hne
  obtain ⟨trail, c, hc⟩ := (List.eq_nil_or_concat item.trail).resolve_left hne
  have hlast : (rowText item).getLast? = some c := by
    simp [rowText, hc]
  have hblank := hok.trail c (by rw [hc]; simp)
  rw [value_last h hlast] at hblank
  cases hblank

theorem rows_of_text (h : ∀ text ∈ texts, Derives .value text) {a : Listing}
    (hok : a.Ok) (htext : a.text = fileText texts) :
    a.items.map (·.value) = texts := by
  have hfile := fileListing_ok h
  obtain ⟨-, hkeys⟩ := Listing.text_inj hok hfile (htext.trans fileListing_text.symm)
  have hrows : a.items.map rowText = texts := by
    have := congrArg (List.map Prod.snd) hkeys
    rw [List.map_map, List.map_map] at this
    exact this.trans fileItems_rows
  rw [← hrows]
  refine List.map_congr_left fun item hitem => ?_
  have hvalue : Derives .value (rowText item) := h _ (hrows ▸ List.mem_map_of_mem hitem)
  rw [rowText, trail_nil (hok.items item hitem) hvalue, List.append_nil]

theorem fast_visits (hjson : Decodes json) (h : ∀ text ∈ texts, Derives .value text)
    {reader : List (Option Text)} (hreads : Reads (fileText texts) reader) {r : List (Visit α) × ℕ}
    (hscan : scanRowsFast json reader = .ok r) : FileVisits json texts r.1 := by
  obtain ⟨chunks, hne, ⟨rfl, hflat⟩ | ⟨rest, rfl⟩⟩ := hreads
  · obtain ⟨visits, n⟩ := r
    obtain ⟨a, t, hok, htext, hnoted, rfl, -, -⟩ := fast_listing hjson hne hscan
    have hfile := htext.trans hflat
    obtain ⟨hbefore, hseen⟩ := seen_file hjson h hok hfile
    have hplaces := hnoted.places
    rw [places, hseen] at hplaces
    have hbytes := hnoted.bytes
    have hvalues := rows_of_text h hok hfile
    have hlengths : a.items.map (·.value.length) =
        (seen json 1 0 (fileItems texts)).map fun row => row.2.2.1 := by
      have hrow : ∀ (items : List Item) (offset order : ℕ),
          (seen json offset order items).map (fun row => row.2.2.1) =
            items.map fun item => (rowText item).length := by
        intro items
        induction items with
        | nil => intro offset order; rfl
        | cons item items ih =>
          intro offset order
          rw [seen, List.map_cons, List.map_cons, ih]
      rw [hrow]
      have h₁ := congrArg (List.map List.length) hvalues
      have h₂ := congrArg (List.map List.length) (@fileItems_rows texts)
      rw [List.map_map] at h₁ h₂
      exact h₁.trans h₂.symm
    refine List.ext_getElem ?_ fun i h₁ h₂ => ?_
    · simpa using congrArg List.length hplaces
    · rw [List.length_map] at h₁
      have hp := List.getElem_of_eq hplaces (i := i) (by simpa using h₁)
      have hb := List.getElem_of_eq (hbytes.trans hlengths) (i := i) (by simpa using h₁)
      simp only [List.getElem_map, Visit.place, Prod.mk.injEq] at hp hb
      simp only [List.getElem_map, Visit.seen]
      obtain ⟨hpoint, hstart, horder⟩ := hp
      rw [hpoint, hstart, horder, hb]
  · exact absurd hscan (fast_run_fails _ chunks hne rest r)

/-- What the index of a file is made of. -/
theorem index_visits (hjson : Decodes json) (h : ∀ text ∈ texts, Derives .value text)
    {reader again : List (Option Text)} (hreads : Reads (fileText texts) reader)
    (hagain : Reads (fileText texts) again) {rewinds : Bool} {entries : List Entry}
    (hindex : streamIndex json view reader now (some (if rewinds then some again else none)) =
      .ok entries) :
    ∃ visits, FileVisits json texts visits ∧ entries = selectEntries
      (entriesOf view now visits) now := by
  simp only [streamIndex] at hindex
  cases hfast : scanRowsFast json reader with
  | ok r =>
    simp only [hfast, Except.ok.injEq] at hindex
    exact ⟨r.1, fast_visits hjson h hreads hfast, hindex.symm⟩
  | error e =>
    rw [hfast] at hindex
    cases rewinds with
    | false => simp at hindex
    | true =>
      simp only [if_true, exactIndex, bind_eq_ok] at hindex
      obtain ⟨r, hscan, hentries⟩ := hindex
      exact ⟨r.1, exact_visits hjson h hagain hscan, (Except.ok.inj hentries).symm⟩

/-! Which rows the file keeps. -/

/-- The rows kept when one more comes: of the old ones the recent and the last of each five
minutes, the new one behind those of its time, and of all these the last 9000. -/
def retained {β : Type} (t : β → ℤ) (now : ℤ) (kept : List β) (a : β) : List β :=
  capped 9000 ((thin (fun b => decide (now - 900000 ≤ t b)) (fun b => (t b).tdiv 300000)
    kept).orderedInsert (fun a b => t a < t b) a)

theorem retained_map {β γ : Type} {f : β → γ} {t : γ → ℤ} {u : β → ℤ} (hu : ∀ b, t (f b) = u b)
    (kept : List β) {a : β} {c : γ} (hc : f a = c) :
    (retained u now kept a).map f = retained t now (kept.map f) c := by
  obtain rfl : (fun b => t (f b)) = u := funext hu
  rw [retained, retained, map_capped, thin_map, ← hc]
  congr 1
  exact List.map_orderedInsert _ _ f _ _ (fun _ _ => Iff.rfl) (fun _ _ => Iff.rfl)

section Selection
variable {entries kept : List Entry} {s : Entry} {now : ℤ}

theorem gather_concat (hs : isRecent now s = true) :
    gather now (kept ++ [s]) = ((gather now kept).1, (gather now kept).2 ++ [s]) := by
  rw [gather, List.foldl_append]
  simp [hs, gather]

/-- A list in order, and one more at the end that comes behind those of its time. -/
theorem insertionSort_concat (h : kept.Pairwise Entry.Before) (hs : ∀ e ∈ kept, e.order < s.order) :
    (kept ++ [s]).insertionSort Entry.Before = kept.orderedInsert (fun a b => a.t < b.t) s := by
  induction kept with
  | nil => rfl
  | cons e kept ih =>
    obtain ⟨he, hkept⟩ := List.pairwise_cons.1 h
    obtain ⟨hes, hks⟩ := List.forall_mem_cons.1 hs
    rw [List.cons_append, List.insertionSort_cons, ih hkept hks]
    by_cases hlt : s.t < e.t
    · have hall : ∀ d ∈ kept, s.t < d.t := fun d hd => hlt.trans_le (he d hd).t_le
      have hfront : kept.orderedInsert (fun a b => a.t < b.t) s = s :: kept := by
        cases kept with
        | nil => rfl
        | cons d kept => exact List.orderedInsert_cons_of_le _ _ (hall d List.mem_cons_self)
      have hnot : ¬ e.Before s := by
        rintro (h | ⟨h, -⟩) <;> omega
      rw [hfront, List.orderedInsert_of_not_le _ _ hnot,
        List.orderedInsert_cons_of_le (fun a b : Entry => a.t < b.t) kept hlt]
      congr 1
      cases kept with
      | nil => rfl
      | cons d kept => exact List.orderedInsert_cons_of_le _ _ (he d List.mem_cons_self)
    · rw [List.orderedInsert_of_not_le (fun a b : Entry => a.t < b.t) kept hlt]
      have hle : e.Before s := by
        rcases lt_or_eq_of_le (not_lt.1 hlt) with h | h
        · exact Or.inl h
        · exact Or.inr ⟨h, hes.le⟩
      cases hins : kept.orderedInsert (fun a b => a.t < b.t) s with
      | nil => rfl
      | cons d rest =>
        have hd : d ∈ kept.orderedInsert (fun a b => a.t < b.t) s := by
          rw [hins]
          exact List.mem_cons_self
        refine List.orderedInsert_cons_of_le _ _ ?_
        rcases List.mem_cons.1 ((List.perm_orderedInsert _ s kept).mem_iff.1 hd) with rfl | hd
        · exact hle
        · exact he d hd

theorem gather_thin (now : ℤ) (h : kept.Pairwise Entry.Before) :
    (gather now kept).1.map (·.2) ++ (gather now kept).2 = thin (isRecent now) bucket kept := by
  have hrecent : kept.Pairwise fun a b => isRecent now a = true → isRecent now b = true := by
    refine h.imp fun hab ha => ?_
    have := hab.t_le
    simp only [isRecent, decide_eq_true_eq] at ha ⊢
    omega
  have hbuckets := (h.imp fun hab => bucket_mono hab.t_le).sublist
    (List.filter_sublist (p := fun e => !isRecent now e))
  rw [thin_eq_lasts hrecent, gather, gather_append, foldl_assign_lasts hbuckets, List.map_map]
  exact congrArg (· ++ _) (List.map_id _)

/-- Of thinned entries all survive, and so does a sample that comes last. -/
theorem surviving_concat (h : kept.Pairwise Entry.Before)
    (hthin : thin (isRecent now) bucket kept = kept) (hs : isRecent now s = true)
    (horder : ∀ e ∈ kept, e.order < s.order) :
    surviving (kept ++ [s]) now = kept.orderedInsert (fun a b => a.t < b.t) s := by
  have hgather := gather_thin now h
  rw [surviving, gather_concat hs, ← List.append_assoc, hgather, hthin]
  exact insertionSort_concat h horder

theorem selectEntries_capped : selectEntries kept now = capped 9000 (surviving kept now) := by
  rw [selectEntries, capped]

theorem retained_entries : retained (·.t) now entries s = capped 9000
    ((thin (isRecent now) bucket entries).orderedInsert (fun a b => a.t < b.t) s) := by
  rw [retained]
  congr 1

/-- The two selections of `record` keep what one of them keeps. -/
theorem select_sample (h : entries.Pairwise Entry.Before) (hs : isRecent now s = true)
    (horder : ∀ e ∈ entries, e.order < s.order) :
    selectEntries (selectEntries entries now ++ [s]) now = retained (·.t) now entries s := by
  have hthin : (thin (isRecent now) bucket entries).Pairwise Entry.Before := h.sublist thin_sublist
  have hins : (thin (isRecent now) bucket entries).Pairwise fun b c => s.t < b.t → s.t < c.t :=
    hthin.imp fun hbc hab => lt_of_lt_of_le hab hbc.t_le
  rw [retained_entries, ← capped_orderedInsert hins, selectEntries_capped, selectEntries_capped,
    surviving_eq_thin h]
  generalize hkept : capped 9000 (thin (isRecent now) bucket entries) = kept
  have hsub : kept.Sublist (thin (isRecent now) bucket entries) := hkept ▸ capped_sublist
  have hfixed : thin (isRecent now) bucket kept = kept := hkept ▸ thin_capped thin_thin 9000
  rw [surviving_concat (hthin.sublist hsub) hfixed hs fun e he =>
    horder e (thin_sublist.subset (hsub.subset he))]

end Selection

/-! A row, and where it is. -/

/-- A row that the sampler has written: a JSON value of a point with a time, measured as now. -/
structure Row (json : Text → Option α) (view : α → Option (ℤ × Bool)) where
  t : ℤ
  text : Text
  value : Derives .value text
  bytes : text.length ≤ rowLimit
  reads : (json text).bind view = some (t, true)

/-- The entry leads to this text. -/
def Finds (content : Text) (entry : Entry) (text : Text) : Prop :=
  match entry.source with
  | .raw raw => raw = text
  | .range offset bytes legacy =>
    legacy = false ∧ bytes = text.length ∧ (content.drop offset).take bytes = text

/-- A row with its entry. -/
structure Placed (json : Text → Option α) (view : α → Option (ℤ × Bool)) (content : Text) where
  row : Row json view
  entry : Entry
  same : entry.t = row.t
  finds : Finds content entry row.text

/-- The index takes rows of the last thirty days, and none from the future. -/
def inWindow (now : ℤ) (row : Row json view) : Bool := now - month ≤ row.t ∧ row.t ≤ now + 60000

section Index
variable {rows : List (Row json view)} {visits : List (Visit α)} {content : Text}

/-- The visit is of this row. -/
structure VisitOf (content : Text) (row : Row json view) (visit : Visit α) : Prop where
  point : json row.text = some visit.point
  bytes : visit.bytes = row.text.length
  slice : (content.drop visit.start).take visit.bytes = row.text

theorem visits_of_file (h : FileVisits json (rows.map (·.text)) visits) :
    List.Forall₂ (VisitOf (fileText (rows.map (·.text)))) rows visits := by
  have hat := @listing_at _ json (fileListing (rows.map (·.text)))
  rw [fileListing_text] at hat
  have hseen : seen json ((fileListing (rows.map (·.text))).before.length + 1) 0
      (fileListing (rows.map (·.text))).items = visits.map Visit.seen := h.symm
  rw [hseen, List.forall₂_map_right_iff, List.forall₂_iff_get] at hat
  obtain ⟨hlen, hat⟩ := hat
  have hrows := @fileItems_rows (rows.map (·.text))
  have hvalues := @fileItems_values (rows.map (·.text))
  have hcount : (fileListing (rows.map (·.text))).items.length = rows.length := by
    simpa [fileListing] using congrArg List.length hrows
  refine List.forall₂_iff_get.2 ⟨hcount.symm.trans hlen, fun i h₁ h₂ => ?_⟩
  have hi : i < (fileItems (rows.map (·.text))).length := hcount ▸ h₁
  obtain ⟨hpoint, hslice, hbytes⟩ := hat i (hcount ▸ h₁) h₂
  have hr := List.getElem_of_eq hrows (i := i) (by simpa using hi)
  have hv := List.getElem_of_eq hvalues (i := i) (by simpa using hi)
  simp only [List.getElem_map] at hr hv
  simp only [fileListing, List.get_eq_getElem, Visit.seen] at hpoint hslice hbytes
  rw [hv] at hpoint
  rw [hr] at hslice hbytes
  exact ⟨hpoint.symm, hbytes, hslice⟩

theorem seen_orders (items : List Item) (offset order : ℕ) :
    (seen json offset order items).map (fun row => row.2.2.2) = List.range' order items.length := by
  induction items generalizing offset order with
  | nil => rfl
  | cons item items ih =>
    rw [seen, List.map_cons, ih, List.length_cons, List.range'_succ]

theorem visit_orders (h : FileVisits json texts visits) :
    visits.Pairwise (fun a b => a.order < b.order) ∧ ∀ visit ∈ visits, visit.order <
      texts.length := by
  have horders : visits.map (·.order) = List.range' 0 texts.length := by
    have := congrArg (List.map fun row => row.2.2.2) h
    rw [seen_orders, List.map_map] at this
    rw [← @fileItems_rows texts, List.length_map]
    exact this
  constructor
  · have hpair : (List.range' 0 texts.length).Pairwise (· < ·) := List.pairwise_lt_range' 1
    rw [← horders] at hpair
    exact List.pairwise_map.1 hpair
  · intro visit hv
    have hmem := List.mem_map_of_mem (f := (·.order)) hv
    rw [horders] at hmem
    have := List.mem_range'_1.1 hmem
    omega

theorem placed_visits (now : ℤ) (h : List.Forall₂ (VisitOf content) rows visits) :
    ∃ placed : List (Placed json view content), placed.map (·.row) = rows.filter (inWindow now) ∧
      placed.map (·.entry) = entriesOf view now visits := by
  induction h with
  | nil => exact ⟨[], rfl, rfl⟩
  | @cons row visit rows visits hvisit _ ih =>
    obtain ⟨placed, hrows, hentries⟩ := ih
    have hview : view visit.point = some (row.t, true) := by
      have := row.reads
      rwa [hvisit.point] at this
    by_cases hwin : now - month ≤ row.t ∧ row.t ≤ now + 60000
    · refine ⟨⟨row, ⟨row.t, visit.order, .range visit.start visit.bytes false⟩, rfl,
        rfl, hvisit.bytes, hvisit.slice⟩ :: placed, ?_, ?_⟩
      · rw [List.map_cons, hrows, List.filter_cons_of_pos (by simpa [inWindow] using hwin)]
      · simp [entriesOf, entryOf, hview, hwin, hentries]
    · refine ⟨placed, ?_, ?_⟩
      · rw [hrows, List.filter_cons_of_neg (by simpa [inWindow] using hwin)]
      · have hnone : entryOf view now visit = none := by
          simp only [entryOf, hview]
          exact if_neg hwin
        rw [entriesOf, List.filterMap_cons_none hnone]
        exact hentries

theorem entryOf_order {visit : Visit α} {entry : Entry} (h : entryOf view now visit = some entry) :
    entry.order = visit.order := by
  unfold entryOf at h
  split at h
  · cases h
  · split at h
    · cases h
      rfl
    · cases h

/-- The entries of a file whose rows are in order are in order. -/
theorem entries_in_order (now : ℤ) (hsorted : rows.Pairwise fun a b => a.t ≤ b.t)
    (h : FileVisits json (rows.map (·.text)) visits) :
    ∃ placed : List (Placed json view (fileText (rows.map (·.text)))),
      placed.map (·.row) = rows.filter (inWindow now) ∧
      placed.map (·.entry) = entriesOf view now visits ∧
      (placed.map (·.entry)).Pairwise Entry.Before ∧
      ∀ entry ∈ placed.map (·.entry), entry.order < (rows.length : ℤ) := by
  obtain ⟨placed, hrows, hentries⟩ := placed_visits now (visits_of_file h)
  obtain ⟨hpair, hless⟩ := visit_orders h
  have horders : (entriesOf view now visits).Pairwise fun a b => a.order < b.order := by
    refine List.pairwise_filterMap.2 (hpair.imp fun hab a ha b hb => ?_)
    rw [entryOf_order ha, entryOf_order hb]
    exact_mod_cast hab
  have htimes : (placed.map (·.entry)).Pairwise fun a b => a.t ≤ b.t := by
    have hfilter := hsorted.sublist (List.filter_sublist (p := inWindow now))
    rw [← hrows] at hfilter
    refine List.pairwise_map.2 ((List.pairwise_map.1 hfilter).imp fun {a b} hab => ?_)
    rwa [a.same, b.same]
  refine ⟨placed, hrows, hentries, ?_, fun entry he => ?_⟩
  · refine (htimes.and (hentries ▸ horders)).imp fun hab => ?_
    rcases lt_or_eq_of_le hab.1 with h | h
    · exact Or.inl h
    · exact Or.inr ⟨h, hab.2.le⟩
  · rw [hentries] at he
    obtain ⟨visit, hv, heq⟩ := List.mem_filterMap.1 he
    have := hless visit hv
    rw [List.length_map] at this
    rw [entryOf_order heq]
    exact_mod_cast this

/-- The entries that `record` writes out lead to the rows that are kept. -/
theorem selected_rows (hsorted : rows.Pairwise fun a b => a.t ≤ b.t)
    (hfew : rows.length ≤ rowsLimit)
    (h : FileVisits json (rows.map (·.text)) visits) (row : Row json view) (hrow : row.t = now) :
    ∃ placed : List (Placed json view (fileText (rows.map (·.text)))),
      placed.map (·.row) = retained (·.t) now (rows.filter (inWindow now)) row ∧
      placed.map (·.entry) = selectEntries (selectEntries (entriesOf view now visits) now ++
        [⟨now, 18000, .raw row.text⟩]) now := by
  obtain ⟨placed, hrows, hentries, hbefore, horders⟩ := entries_in_order now hsorted h
  refine ⟨retained (fun p => p.row.t) now placed ⟨row, ⟨now, 18000, .raw row.text⟩, hrow.symm, rfl⟩,
    ?_, ?_⟩
  · rw [← hrows]
    exact retained_map (fun _ => rfl) placed rfl
  · rw [← hentries]
    refine (retained_map (fun p => p.same) placed rfl).trans ?_
    refine (select_sample hbefore ?_ fun e he => ?_).symm
    · simp [isRecent]
    · have hle := horders e he
      have hcast : (rows.length : ℤ) ≤ 18000 := by exact_mod_cast hfew
      exact lt_of_lt_of_le hle hcast

end Index

end Foxhole.History
