import Foxhole.HistoryFast
import Foxhole.Retention

/-! The index of the history: stream_index of history.uc, which tries the fast scan first. -/
namespace Foxhole.History
open Check Json Keyed

/-- `MONTH` -/
def month : ℤ := 2592000000

variable {α : Type}

/-- The entry that `visit` pushes for a row. `view` is the time of a point with a whole number for
one, and whether its measurement version is 2. -/
def entryOf (view : α → Option (ℤ × Bool)) (now : ℤ) (visit : Visit α) : Option Entry :=
  match view visit.point with
  | none => none
  | some (t, measured) =>
    if now - month ≤ t ∧ t ≤ now + 60000 then
      some ⟨t, visit.order, .range visit.start visit.bytes (!measured)⟩
    else none

def entriesOf (view : α → Option (ℤ × Bool)) (now : ℤ) (visits : List (Visit α)) : List Entry :=
  visits.filterMap (entryOf view now)

/-- The index without the fast scan. -/
def exactIndex (json : Text → Option α) (view : α → Option (ℤ × Bool)) (reader : List (Option Text))
    (now : ℤ) : Except ScanError (List Entry) := do
  let found ← scanRows json reader
  return selectEntries (entriesOf view now found.1) now

/-- `stream_index(reader, now, rewind)`; `rewind` is what can be read after it, or that it fails. -/
def streamIndex (json : Text → Option α) (view : α → Option (ℤ × Bool))
    (reader : List (Option Text))
    (now : ℤ) (rewind : Option (Option (List (Option Text)))) : Except ScanError (List Entry) :=
  match rewind with
  | none => exactIndex json view reader now
  | some again =>
    match scanRowsFast json reader with
    | .ok (visits, _) => .ok (selectEntries (entriesOf view now visits) now)
    | .error _ =>
      match again with
      | none => .error .readFailed
      | some reader => exactIndex json view reader now

variable {json : Text → Option α} {view : α → Option (ℤ × Bool)} {items others : List Item}
  {entries : List Entry} {text : Text} {visits visits' : List (Visit α)} {n : ℕ} {now : ℤ}

/-! The places of the elements. -/

theorem seen_congr (hjson : Decodes json) {offset order : ℕ} (h : ∀ item ∈ items, item.Ok)
    (h' : ∀ item ∈ others, item.Ok) (hkeys : items.map (fun item => (item.lead, item.row)) =
      others.map fun item => (item.lead, item.row)) :
    seen json offset order items = seen json offset order others := by
  induction items generalizing offset order others with
  | nil =>
    cases others with
    | nil => rfl
    | cons other others => cases hkeys
  | cons item items ih =>
    cases others with
    | nil => cases hkeys
    | cons other others =>
      obtain ⟨hitem, hitems⟩ := List.forall_mem_cons.1 h
      obtain ⟨hother, hothers⟩ := List.forall_mem_cons.1 h'
      simp only [List.map_cons, List.cons.injEq, Prod.mk.injEq] at hkeys
      obtain ⟨⟨hlead, hrow⟩, hrest⟩ := hkeys
      have hrow : rowText item = rowText other := hrow
      have htext : item.text = other.text := by
        have (i : Item) : i.text = i.lead ++ rowText i := rfl
        rw [this, this, hlead, hrow]
      obtain ⟨point, hpoint, hvalue⟩ := json_rowText hjson hitem
      obtain ⟨point', hpoint', hvalue'⟩ := json_rowText hjson hother
      have hsame : json item.value = json other.value := by
        rw [hvalue, hvalue', ← hpoint, ← hpoint', hrow]
      rw [seen, seen, hsame, hlead, hrow, htext, ih hitems hothers hrest]

/-- An element, and where its row is in the text. -/
structure At (json : Text → Option α) (text : Text) (item : Item) (row : Option α × ℕ × ℕ × ℕ) :
    Prop where
  point : row.1 = json item.value
  slice : (text.drop row.2.1).take row.2.2.1 = rowText item
  bytes : row.2.2.1 = (rowText item).length

theorem seen_at {before rest : Text} {order : ℕ} :
    List.Forall₂ (At json (before ++ (joined items ++ rest))) items
      (seen json before.length order items) := by
  induction items generalizing before order with
  | nil => exact .nil
  | cons item items ih =>
    have hsplit : ∃ behind, before ++ (joined (item :: items) ++ rest) =
        (before ++ item.lead) ++ (rowText item ++ behind) := by
      cases items with
      | nil => exact ⟨rest, by simp [joined, Item.text, rowText]⟩
      | cons next items => exact ⟨_, by simp [joined, Item.text, rowText]; rfl⟩
    refine .cons ⟨rfl, ?_, rfl⟩ ?_
    · obtain ⟨behind, hsplit⟩ := hsplit
      dsimp only
      rw [hsplit, ← List.length_append, List.drop_left, List.take_left]
    · cases items with
      | nil => exact .nil
      | cons next items =>
        have hbefore : (before ++ (item.text ++ [','])).length = before.length +
            item.text.length + 1 := by
          simp [Nat.add_assoc]
        have hshape : before ++ (joined (item :: next :: items) ++ rest) =
            (before ++ (item.text ++ [','])) ++ (joined (next :: items) ++ rest) := by
          simp [joined]
        rw [hshape, ← hbefore]
        exact ih

theorem listing_at {a : Listing} : List.Forall₂ (At json a.text) a.items
    (seen json (a.before.length + 1) 0 a.items) := by
  by_cases hnil : a.items = []
  · rw [hnil]
    exact .nil
  · have hshape : a.text = (a.before ++ ['[']) ++ (joined a.items ++ (']' :: a.after)) := by
      simp [Listing.text, Listing.body, hnil]
    have hlen : (a.before ++ ['[']).length = a.before.length + 1 := by simp
    rw [hshape, ← hlen]
    exact seen_at

/-! The two scans side by side. -/

/-- Two visits of one row; the second may count white space behind it. -/
structure Agree (text : Text) (v v' : Visit α) : Prop where
  point : v.point = v'.point
  start : v.start = v'.start
  order : v.order = v'.order
  bytes_le : v.bytes ≤ v'.bytes
  blank : Blank ((text.drop (v.start + v.bytes)).take (v'.bytes - v.bytes))

theorem agree_of_at {rows : List (Option α × ℕ × ℕ × ℕ)}
    (h : List.Forall₂ (At json text) items rows)
    (hok : ∀ item ∈ items, item.Ok)
    (hplaces : visits.map Visit.place = rows.map fun row => (row.1, row.2.1, row.2.2.2))
    (hbytes : visits.map (·.bytes) = items.map (·.value.length))
    (hseen : visits'.map Visit.seen = rows) : List.Forall₂ (Agree text) visits visits' := by
  induction h generalizing visits visits' with
  | nil =>
    rw [List.map_eq_nil_iff] at hseen
    rw [List.map_nil, List.map_eq_nil_iff] at hplaces
    rw [hseen, hplaces]
    exact .nil
  | @cons item row items rows hat _ ih =>
    obtain ⟨hitem, hitems⟩ := List.forall_mem_cons.1 hok
    obtain ⟨v, vs, rfl, hv, hvs⟩ := List.map_eq_cons_iff.1 hplaces
    obtain ⟨v', vs', rfl, hv', hvs'⟩ := List.map_eq_cons_iff.1 hseen
    simp only [List.map_cons, List.cons.injEq] at hbytes
    subst hv'
    obtain ⟨hpoint, hslice, hlen⟩ := hat
    simp only [Visit.place, Visit.seen, Prod.mk.injEq, Option.some.injEq] at hv hslice hlen
    have hle : v.bytes ≤ v'.bytes := by
      rw [hlen, hbytes.1, rowText, List.length_append]
      omega
    refine .cons ⟨hv.1, hv.2.1, hv.2.2, hle, ?_⟩ (ih hitems hvs hbytes.2 hvs')
    have htrail : (text.drop (v.start + v.bytes)).take (v'.bytes - v.bytes) = item.trail := by
      rw [← List.drop_drop, ← List.drop_take, hv.2.1, hslice, hbytes.1, rowText, List.drop_left]
    rw [htrail]
    exact hitem.trail

/-- However the bytes come, an accepting fast scan and an accepting exact one visit the same
rows. -/
theorem scans_agree (hjson : Decodes json) {chunks chunks' : List Text}
    (hne : ∀ chunk ∈ chunks, chunk ≠ []) (hne' : ∀ chunk ∈ chunks', chunk ≠ [])
    (hsame : chunks'.flatten = chunks.flatten) {m : ℕ}
    (hfast : scanRowsFast json (chunks.map some) = .ok (visits, n))
    (hscan : scanRows json (chunks'.map some) = .ok (visits', m)) :
    m = n ∧ List.Forall₂ (Agree chunks.flatten) visits visits' := by
  obtain ⟨a, t, hok, htext, hnoted, rfl, rfl, -⟩ := fast_listing hjson hne hfast
  obtain ⟨rfl, ⟨b, hbok, hbtext, hseen⟩, -⟩ := (scan_rows_exact hjson chunks' hne').2.1
    visits' m hscan
  -- both scans have taken the one array apart
  have hboth : b.text = a.text := by rw [hbtext, htext, hsame]
  obtain ⟨hbefore, hkeys⟩ := Listing.text_inj hbok hok hboth
  rw [hbefore, seen_congr hjson hbok.items hok.items hkeys] at hseen
  refine ⟨by rw [hsame, htext], ?_⟩
  rw [← htext]
  exact agree_of_at listing_at hok.items hnoted.places hnoted.bytes hseen

/-! The index does not depend on the lengths. -/

/-- An entry without the length of its range. -/
def Entry.unsized (entry : Entry) : Entry :=
  { entry with source := match entry.source with
      | .range offset _ legacy => .range offset 0 legacy
      | .raw text => .raw text }

/-- The time, the offset, the order and whether it is legacy. -/
def Entry.place (entry : Entry) : ℤ × Option (ℕ × Bool) × ℤ :=
  (entry.t, match entry.source with
    | .range offset _ legacy => some (offset, legacy)
    | .raw _ => none, entry.order)

theorem place_unsized (entry : Entry) : entry.unsized.place = entry.place := by
  obtain ⟨t, order, source⟩ := entry
  cases source <;> rfl

theorem gather_map (f : Entry → Entry) (ht : ∀ entry, (f entry).t = entry.t) :
    gather now (entries.map f) = ((gather now entries).1.map (fun row => (row.1, f row.2)),
      (gather now entries).2.map f) := by
  have hgen (table : List (ℤ × Entry)) (recent : List Entry) :
      (entries.map f).foldl (fun s entry =>
        if isRecent now entry then (s.1, s.2 ++ [entry])
        else (assign s.1 (bucket entry) entry, s.2))
        (table.map (fun row => (row.1, f row.2)), recent.map f) =
      ((entries.foldl (fun s entry =>
        if isRecent now entry then (s.1, s.2 ++ [entry])
        else (assign s.1 (bucket entry) entry, s.2)) (table, recent)).1.map
          (fun row => (row.1, f row.2)),
        (entries.foldl (fun s entry =>
        if isRecent now entry then (s.1, s.2 ++ [entry])
        else (assign s.1 (bucket entry) entry, s.2)) (table, recent)).2.map f) := by
    induction entries generalizing table recent with
    | nil => rfl
    | cons entry entries ih =>
      have hrecent : isRecent now (f entry) = isRecent now entry := by simp [isRecent, ht]
      have hbucket : bucket (f entry) = bucket entry := by simp [bucket, ht]
      simp only [List.map_cons, List.foldl_cons, hrecent, hbucket, assign_map]
      cases isRecent now entry with
      | true =>
        have hpush : recent.map f ++ [f entry] = (recent ++ [entry]).map f := by simp
        simp only [if_true, hpush]
        exact ih table (recent ++ [entry])
      | false => exact ih (assign table (bucket entry) entry) recent
  exact hgen [] []

/-- The selection looks at times and orders alone. -/
theorem selectEntries_map (f : Entry → Entry) (ht : ∀ entry, (f entry).t = entry.t)
    (horder : ∀ entry, (f entry).order = entry.order) :
    selectEntries (entries.map f) now = (selectEntries entries now).map f := by
  have hsurviving : surviving (entries.map f) now = (surviving entries now).map f := by
    have hmap (l : List Entry) : (l.insertionSort Entry.Before).map f =
        (l.map f).insertionSort Entry.Before := by
      refine List.map_insertionSort _ _ f l fun a _ b _ => ?_
      simp [Entry.Before, ht, horder]
    rw [surviving, gather_map f ht, surviving, hmap]
    simp [Function.comp_def]
  rw [selectEntries, selectEntries, hsurviving, List.length_map, List.map_drop]

theorem entries_agree (h : List.Forall₂ (Agree text) visits visits') :
    (entriesOf view now visits).map Entry.unsized = (entriesOf view now visits').map
    Entry.unsized := by
  unfold entriesOf
  induction h with
  | nil => rfl
  | @cons v v' vs vs' hv _ ih =>
    obtain ⟨hpoint, hstart, horder, -, -⟩ := hv
    simp only [List.filterMap_cons, entryOf, hpoint, hstart, horder]
    cases view v'.point with
    | none => exact ih
    | some row =>
      dsimp only
      by_cases hin : now - month ≤ row.1 ∧ row.1 ≤ now + 60000
      · simp only [hin, and_self, if_true, List.map_cons, ih]
        rfl
      · simp only [hin, if_false]
        exact ih

theorem select_agree (h : List.Forall₂ (Agree text) visits visits') :
    (selectEntries (entriesOf view now visits) now).map Entry.place =
      (selectEntries (entriesOf view now visits') now).map Entry.place := by
  have hmap (l : List Entry) :
      (selectEntries l now).map Entry.place =
        (selectEntries (l.map Entry.unsized) now).map Entry.place := by
    rw [selectEntries_map Entry.unsized (fun _ => rfl) (fun _ => rfl), List.map_map]
    exact List.map_congr_left fun entry _ => (place_unsized entry).symm
  rw [hmap (entriesOf view now visits), hmap (entriesOf view now visits'), entries_agree h]

/-- What the fast scan accepts the exact one accepts too, when no row is too long with the white
space behind it, and both visit the same rows; so the index is the same with the fast scan and
without, wherever the exact scan accepts. -/
theorem fast_refines_exact (hjson : Decodes json) (view : α → Option (ℤ × Bool)) (now : ℤ)
    (chunks chunks' again : List Text) (hne : ∀ chunk ∈ chunks, chunk ≠ [])
    (hne' : ∀ chunk ∈ chunks', chunk ≠ []) (hagain : ∀ chunk ∈ again, chunk ≠ [])
    (hsame : chunks'.flatten = chunks.flatten) (hread : again.flatten = chunks.flatten) :
    (∀ visits n, scanRowsFast json (chunks.map some) = .ok (visits, n) →
      (∀ a : Listing, a.Ok → a.text = chunks.flatten →
        ∀ item ∈ a.items, (rowText item).length ≤ 65536) →
      ∃ visits', scanRows json (chunks'.map some) = .ok (visits', n) ∧
        List.Forall₂ (Agree chunks.flatten) visits visits') ∧
    (Succeeds (scanRows json (chunks'.map some)) → ∃ fast exact,
      streamIndex json view (chunks.map some) now (some (some (again.map some))) = .ok fast ∧
      streamIndex json view (chunks'.map some) now none = .ok exact ∧
      fast.map Entry.place = exact.map Entry.place) := by
  constructor
  · intro visits n hfast hrows
    obtain ⟨a, t, hok, htext, hnoted, -, hn, hmax⟩ := fast_listing hjson hne hfast
    have hfits : chunks'.flatten.length ≤ 6000000 := by
      rw [hsame, ← htext, ← hn]
      exact hmax
    obtain ⟨⟨visits', m⟩, hscan⟩ := (scan_rows_exact hjson chunks' hne').1.2
      ⟨a, hok, by rw [htext, hsame], hnoted.rows_le, hrows a hok htext, hfits⟩
    obtain ⟨rfl, hagree⟩ := scans_agree hjson hne hne' hsame hfast hscan
    exact ⟨visits', hscan, hagree⟩
  · rintro ⟨⟨visits', m⟩, hscan⟩
    have hexact : streamIndex json view (chunks'.map some) now none =
        .ok (selectEntries (entriesOf view now visits') now) := by
      simp [streamIndex, exactIndex, hscan, bind, Except.bind, pure, Except.pure]
    cases hfast : scanRowsFast json (chunks.map some) with
    | ok found =>
      obtain ⟨visits, n⟩ := found
      obtain ⟨-, hagree⟩ := scans_agree hjson hne hne' hsame hfast hscan
      exact ⟨_, _, by simp [streamIndex, hfast], hexact, select_agree hagree⟩
    | error e =>
      -- the bytes are read again from the start
      have hsame' := (scan_rows_exact hjson chunks' hne').2.2 again hagain (hread.trans hsame.symm)
      cases hrescan : scanRows json (again.map some) with
      | error e' => simp [hrescan, hscan, Except.toOption] at hsame'
      | ok found =>
        simp only [hrescan, hscan, Except.toOption, Option.some.injEq] at hsame'
        subst hsame'
        refine ⟨_, _, ?_, hexact, rfl⟩
        simp [streamIndex, exactIndex, hfast, hrescan, bind, Except.bind, pure, Except.pure]

/-! Three rows, the one in the middle with brackets in a string and in two chunks. -/

theorem rows_le_text {rows : List (Option α × ℕ × ℕ × ℕ)}
    (h : List.Forall₂ (At json text) items rows) :
    ∀ item ∈ items, (rowText item).length ≤ text.length := by
  induction h with
  | nil => simp
  | cons hat _ ih =>
    refine List.forall_mem_cons.2 ⟨?_, ih⟩
    rw [← hat.slice, List.length_take, List.length_drop]
    omega

section Extend
variable {json' : Text → Option α} (hjson : ∀ t point, json t = some point → json' t = some point)
include hjson

/-- What is read is read alike by a decoder that accepts more. -/
theorem row_extend {s t : Fast α} {position : ℕ} (h : s.row json text position = .ok t) :
    s.row json' text position = .ok t := by
  unfold Fast.row at h ⊢
  by_cases hempty : text = []
  · rwa [if_pos hempty] at h ⊢
  rw [if_neg hempty] at h ⊢
  simp only at h ⊢
  generalize (if text.getLast? = some ']' then Text.trim text.dropLast else text) = inner at h ⊢
  by_cases hclose : inner = []
  · rwa [if_pos hclose] at h ⊢
  rw [if_neg hclose] at h ⊢
  simp only [bind_eq_ok] at h ⊢
  obtain ⟨_, hended, _, hrow, h⟩ := h
  refine ⟨(), hended, (), hrow, ?_⟩
  split at h
  · cases h
  · rename_i point hpoint
    simp only [hjson _ _ hpoint]
    exact h

theorem line_extend {s t : Fast α} {raw : Text} {position : ℕ}
    (h : s.line json raw position = .ok t) : s.line json' raw position = .ok t := by
  unfold Fast.line at h ⊢
  simp only at h ⊢
  by_cases hempty : raw.trim = []
  · rwa [if_pos hempty] at h ⊢
  rw [if_neg hempty] at h ⊢
  simp only [bind_eq_ok] at h ⊢
  obtain ⟨_, hclosed, h⟩ := h
  refine ⟨(), hclosed, ?_⟩
  by_cases hbefore : s.phase = .before
  · rw [if_pos hbefore] at h ⊢
    simp only [bind_eq_ok] at h ⊢
    obtain ⟨_, hopen, h⟩ := h
    exact ⟨(), hopen, row_extend hjson h⟩
  · rw [if_neg hbefore] at h ⊢
    exact row_extend hjson h

theorem parts_extend : ∀ {parts : List Text} {s t : Fast α},
    s.parts json parts = .ok t → s.parts json' parts = .ok t
  | [], _, _, h => h
  | [_], _, _, h => h
  | part :: next :: parts, s, t, h => by
    simp only [Fast.parts, bind_eq_ok] at h ⊢
    obtain ⟨_, hlimit, u, hline, h⟩ := h
    exact ⟨(), hlimit, u, line_extend hjson hline, parts_extend h⟩

theorem run_extend : ∀ {reader : List (Option Text)} {s : Fast α} {r : List (Visit α) × ℕ},
    s.run json reader = .ok r → s.run json' reader = .ok r
  | some (c :: chunk) :: reader, s, r, h => by
    simp only [Fast.run, bind_eq_ok] at h ⊢
    obtain ⟨_, hlimit, u, hparts, h⟩ := h
    exact ⟨(), hlimit, u, parts_extend hjson hparts, run_extend h⟩
  | none :: _, _, _, h => by cases h
  | [], s, r, h => by
    simp only [Fast.run, bind_eq_ok] at h ⊢
    obtain ⟨u, hline, h⟩ := h
    exact ⟨u, line_extend hjson hline, h⟩
  | some [] :: _, s, r, h => by
    simp only [Fast.run, bind_eq_ok] at h ⊢
    obtain ⟨u, hline, h⟩ := h
    exact ⟨u, line_extend hjson hline, h⟩

end Extend

def fiveRow : Text := ['\x7b', '"', 't', '"', ':', '5', '\x7d']

def bracketRow : Text := ['\x7b', '"', 's', '"', ':', '"', ']', '[', '"', '\x7d']

def sevenRow : Text := ['\x7b', '"', 't', '"', ':', '7', '\x7d']

theorem digitRow_derives {c : Char} (hd : c.isDigit = true) (h0 : c ≠ '0') :
    Derives .value ['\x7b', '"', 't', '"', ':', c, '\x7d'] := by
  have hblank : Blank [] := by simp [Blank]
  have hdigit : Derives .element [c] := .element hblank (one_digit hd h0) hblank
  have hname : Body ['t'] := .plain (by decide) (by decide) (by decide) .nil
  exact .object (.member hblank hname hblank hdigit)

theorem bracketRow_derives : Derives .value bracketRow := by
  have hblank : Blank [] := by simp [Blank]
  have hbody : Body [']', '['] :=
    .plain (by decide) (by decide) (by decide) (.plain (by decide) (by decide) (by decide) .nil)
  have hstring : Derives .element ['"', ']', '[', '"'] := .element hblank (.string hbody) hblank
  have hname : Body ['s'] := .plain (by decide) (by decide) (by decide) .nil
  exact .object (.member hblank hname hblank hstring)

/-- The rows, and no other text. -/
def threeJson (t : Text) : Option Text := if t ∈ [fiveRow, bracketRow, sevenRow] then
    some t else none

theorem threeJson_bare (t point : Text) (h : threeJson t = some point) :
    bareJson t = some point := by
  have hbare {row : Text} (hvalue : Derives .value row)
      (hfilter : (row.filter fun c => !isBlank c) = row) : bareJson row = some row := by
    have hitem : Item.Ok ⟨[], row, []⟩ := ⟨by simp [Blank], hvalue, by simp [Blank]⟩
    have htext : Derives .element row := element_iff.2 ⟨_, hitem, by simp [Item.text]⟩
    unfold bareJson
    rw [if_pos htext, hfilter]
  unfold threeJson at h
  split at h
  · rename_i hmem
    obtain rfl := Option.some.inj h
    simp only [List.mem_cons, List.not_mem_nil, or_false] at hmem
    rcases hmem with rfl | rfl | rfl
    · exact hbare (digitRow_derives (by decide) (by decide)) (by decide)
    · exact hbare bracketRow_derives (by decide)
    · exact hbare (digitRow_derives (by decide) (by decide)) (by decide)
  · cases h

def threeView (point : Text) : Option (ℤ × Bool) :=
  if point = fiveRow then some (5, false) else if point = sevenRow then some (7, false) else none

/-- Up to the first of the brackets in the string. -/
def firstChunk : Text := '[' :: (fiveRow ++ [',', '\n'] ++ bracketRow.take 7)

def secondChunk : Text := bracketRow.drop 7 ++ [',', '\n'] ++ sevenRow ++ [']']

def threeVisits : List (Visit Text) :=
  [⟨fiveRow, 1, 7, 0⟩, ⟨bracketRow, 10, 10, 1⟩, ⟨sevenRow, 22, 7, 2⟩]

theorem fast_sample : scanRowsFast bareJson ([firstChunk, secondChunk].map some) =
    .ok (threeVisits, 30) := by
  have hthree : scanRowsFast threeJson ([firstChunk, secondChunk].map some) =
      .ok (threeVisits, 30) := by decide
  exact run_extend threeJson_bare hthree

/-- The rows are indexed alike by both scans. -/
theorem fast_refines_sample :
    (∃ visits', scanRows bareJson ([firstChunk ++ secondChunk].map some) = .ok (visits', 30) ∧
      List.Forall₂ (Agree [firstChunk, secondChunk].flatten) threeVisits visits') ∧
    ∃ fast exact,
      streamIndex bareJson threeView ([firstChunk, secondChunk].map some) 7
        (some (some ([firstChunk, secondChunk].map some))) = .ok fast ∧
      streamIndex bareJson threeView ([firstChunk ++ secondChunk].map some) 7 none = .ok exact ∧
      fast.map Entry.place = exact.map Entry.place := by
  obtain ⟨hfirst, hsecond⟩ := fast_refines_exact bareJson_decodes threeView 7
    [firstChunk, secondChunk] [firstChunk ++ secondChunk] [firstChunk, secondChunk] (by decide)
    (by decide) (by decide) (by simp) rfl
  obtain ⟨visits', hscan, hagree⟩ := hfirst _ _ fast_sample fun a hok htext item hitem => by
    have hle := rows_le_text (@listing_at Text bareJson a) item hitem
    have hlen : a.text.length = 30 := congrArg List.length htext
    omega
  exact ⟨⟨visits', hscan, hagree⟩, hsecond ⟨_, hscan⟩⟩

end Foxhole.History
