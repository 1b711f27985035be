import Foxhole.HistoryScan

/-! What scan_rows accepts and visits: the elements of one JSON array, however it is cut up. -/
namespace Foxhole.History
open Check Json

variable {α : Type} {json : Text → Option α} {s t u : Scan α} {text w lead : Text} {c d : Char}
  {items : List Item} {item : Item} {visits : List (Visit α)} {n : ℕ}

/-- `json` accepts the JSON texts, and white space around a value does not change it. -/
structure Decodes (json : Text → Option α) : Prop where
  accepts : ∀ t, (json t).isSome = true ↔ Derives .element t
  blank : ∀ item : Item, item.Ok → json item.text = json item.value

/-- The text of a row: up to the delimiter behind it. -/
def rowText (item : Item) : Text := item.value ++ item.trail

def Visit.seen (visit : Visit α) : Option α × ℕ × ℕ × ℕ :=
  (some visit.point, visit.start, visit.bytes, visit.order)

/-- The calls of `visit` for elements from this offset on. -/
def seen (json : Text → Option α) (offset order : ℕ) : List Item → List (Option α × ℕ × ℕ × ℕ)
  | [] => []
  | item :: items =>
    (json item.value, offset + item.lead.length, (rowText item).length, order) ::
      seen json (offset + item.text.length + 1) (order + 1) items

theorem seen_concat {offset order : ℕ} : seen json offset order (items ++ [item]) =
    seen json offset order items ++ [(json item.value,
      offset + (closed items).length + item.lead.length, (rowText item).length,
      order + items.length)] := by
  induction items generalizing offset order with
  | nil => simp [seen, closed]
  | cons first items ih =>
    have hclosed : (closed (first :: items)).length =
        first.text.length + 1 + (closed items).length := by
      simp [closed, List.flatMap_cons]
      omega
    have hoffset : offset + first.text.length + 1 + (closed items).length =
        offset + (closed (first :: items)).length := by omega
    have horder : order + 1 + items.length = order + (first :: items).length := by
      rw [List.length_cons]
      omega
    rw [List.cons_append, seen, ih, seen, List.cons_append, hoffset, horder]

/-- What is recorded behind the elements: their visits, within the bounds. -/
structure Recorded (json : Text → Option α) (offset : ℕ) (items : List Item) (s : Scan α) :
    Prop where
  visits : s.visits.map Visit.seen = seen json offset 0 items
  rows : s.rows = items.length
  rows_le : items.length ≤ rowsLimit
  row_le : ∀ item ∈ items, (rowText item).length ≤ rowLimit

/-- Where the machine is behind a text. -/
inductive Follows (json : Text → Option α) : Text → Scan α → Prop
  | before {w : Text} {s : Scan α} : Blank w → s.phase = .before → s.start = none →
      s.offset = w.length → s.visits = [] → s.rows = 0 → Follows json w s
  | between {w lead : Text} {items : List Item} {s : Scan α} : Blank w → (∀ item ∈ items, item.Ok) →
      Blank lead → Recorded json (w.length + 1) items s →
      s.phase = (if items = [] then .opened else .comma) → s.start = none →
      s.offset = (w ++ '[' :: (closed items ++ lead)).length →
      Follows json (w ++ '[' :: (closed items ++ lead)) s
  | row {w lead rest : Text} {items : List Item} {c : Char} {s : Scan α} : Blank w →
      (∀ item ∈ items, item.Ok) → Blank lead → Recorded json (w.length + 1) items s →
      s.phase = (if items = [] then .opened else .comma) →
      s.start = some (w ++ '[' :: (closed items ++ lead)).length → s.pending = c :: rest →
      isBlank c = false → s.offset = (w ++ '[' :: (closed items ++ (lead ++ c :: rest))).length →
      Follows json (w ++ '[' :: (closed items ++ (lead ++ c :: rest))) s
  | closed {a : Listing} {s : Scan α} : a.Ok → Recorded json (a.before.length + 1) a.items s →
      s.phase = .closed → s.start = none → s.offset = a.text.length → Follows json a.text s

theorem Recorded.congr {offset : ℕ} (h : Recorded json offset items s) (hv : t.visits = s.visits)
    (hr : t.rows = s.rows) : Recorded json offset items t :=
  ⟨hv ▸ h.visits, hr ▸ h.rows, h.rows_le, h.row_le⟩

theorem between_visits {i : ℕ} (h : s.between i c = .ok t) :
    t.visits = s.visits ∧ t.rows = s.rows := by
  rcases between_ok h with ⟨-, rfl⟩ | ⟨-, ⟨-, -, rfl⟩ | ⟨-, -, rfl⟩ | ⟨-, -, -, rfl⟩ | ⟨-, -, rfl⟩ |
    ⟨-, -, rfl⟩⟩ <;> exact ⟨rfl, rfl⟩

/-- A character between rows. -/
theorem follows_between (h : Follows json text s) (hstart : s.start = none)
    (hv : s.between 0 c = .ok u) : Follows json (text ++ [c]) (u.advance c) := by
  cases h with
  | before hw hphase _ hoff hvisits hrows =>
    rcases between_ok hv with
      ⟨hc, rfl⟩ | ⟨hc, ⟨-, rfl, rfl⟩ | ⟨hp, -⟩ | ⟨hp, -⟩ | ⟨hp, -⟩ | ⟨hp, -⟩⟩
    · exact .before (hw.concat hc) hphase hstart (by simp [Scan.advance, hoff]) hvisits hrows
    · have hrec : Recorded json (text.length + 1) [] ({ s with phase := .opened }.advance '[') :=
        ⟨by simp [Scan.advance, hvisits, seen], by simp [Scan.advance, hrows], by simp, by simp⟩
      exact .between hw (by simp) (by simp [Blank]) hrec rfl hstart
        (by simp [Scan.advance, hoff, closed])
    all_goals simp [hphase] at hp
  | @between w lead items _ hw hitems hlead hrec hphase _ hoff =>
    have hne (q : Phase) (hq : q ≠ .opened ∧ q ≠ .comma) : s.phase ≠ q := by
      rw [hphase]
      split
      · exact hq.1.symm
      · exact hq.2.symm
    rcases between_ok hv with ⟨hc, rfl⟩ | ⟨hc, ⟨hp, -⟩ | ⟨hp, rfl, rfl⟩ | ⟨-, -, -, rfl⟩ | ⟨hp, -⟩ |
      ⟨hp, -⟩⟩
    · have hshape : w ++ '[' :: (closed items ++ lead) ++ [c] =
          w ++ '[' :: (closed items ++ (lead ++ [c])) := by simp
      rw [hshape]
      refine .between hw hitems (hlead.concat hc) (hrec.congr rfl rfl) hphase hstart ?_
      rw [← hshape, List.length_append, ← hoff]
      rfl
    · exact absurd hp (hne _ (by decide))
    · -- the bracket closes an array with no elements
      have hempty : items = [] := by
        by_contra hne
        rw [hphase, if_neg hne] at hp
        cases hp
      subst hempty
      have ha : (⟨w, [], lead, []⟩ : Listing).Ok := ⟨hw, by simp, hlead, by simp [Blank]⟩
      have hshape : w ++ '[' :: (closed [] ++ lead) ++ [']'] =
          (⟨w, [], lead, []⟩ : Listing).text := by simp [Listing.text, Listing.body, closed]
      rw [hshape]
      refine .closed ha (hrec.congr rfl rfl) rfl hstart ?_
      rw [← hshape, List.length_append, ← hoff]
      rfl
    · have hshape : w ++ '[' :: (closed items ++ lead) ++ [c] =
          w ++ '[' :: (closed items ++ (lead ++ [c])) := by simp
      rw [hshape]
      refine .row hw hitems hlead (hrec.congr rfl rfl) hphase ?_ rfl hc ?_
      · rw [← hoff]
        rfl
      · rw [← hshape, List.length_append, ← hoff]
        rfl
    · exact absurd hp (hne _ (by decide))
    · exact absurd hp (hne _ (by decide))
  | row _ _ _ _ _ hrow => simp [hrow] at hstart
  | @closed a _ hok hrec hphase _ hoff =>
    rcases between_ok hv with ⟨hc, rfl⟩ | ⟨hc, ⟨hp, -⟩ | ⟨hp, -⟩ | ⟨hp, -⟩ | ⟨hp, -⟩ | ⟨hp, -⟩⟩
    · have ha : Listing.Ok { a with after := a.after ++ [c] } :=
        ⟨hok.before, hok.items, hok.inner, hok.after.concat hc⟩
      have hshape : a.text ++ [c] = Listing.text { a with after := a.after ++ [c] } := by
        simp [Listing.text, Listing.body]
      rw [hshape]
      refine .closed ha (hrec.congr rfl rfl) hphase hstart ?_
      rw [← hshape, List.length_append, ← hoff]
      rfl
    all_goals simp [hphase] at hp

/-- The text of a row that `json` accepts is an element, and begins with its value. -/
theorem row_item (hjson : Decodes json) (raw : Text) (hsome : (json raw).isSome = true)
    (hraw : raw.head? = some c) (hc : isBlank c = false) (hlead : Blank lead) :
    ∃ item : Item, item.Ok ∧ item.lead = lead ∧ rowText item = raw ∧ json item.value =
      json raw := by
  obtain ⟨found, hok, rfl⟩ := element_iff.1 ((hjson.accepts raw).1 hsome)
  have hempty : found.lead = [] := by
    cases hl : found.lead with
    | nil => rfl
    | cons b rest =>
      have hb := hok.lead b (by simp [hl])
      simp only [Item.text, hl, List.cons_append, List.head?_cons, Option.some.injEq] at hraw
      rw [hraw, hc] at hb
      cases hb
  refine ⟨⟨lead, found.value, found.trail⟩, ⟨hlead, hok.value, hok.trail⟩, rfl, ?_, ?_⟩
  · simp [rowText, Item.text, hempty]
  · exact (hjson.blank found hok).symm

/-- What the machine without chunks knows is kept by every character. -/
theorem follows_read (hjson : Decodes json) (h : Follows json text s) (hr : s.read json c = .ok t) :
    Follows json (text ++ [c]) t := by
  rcases read_ok hr with ⟨start, u, v, hstart, hends, hu, hv, rfl⟩ |
    ⟨start, reader, hstart, -, -, rfl⟩ | ⟨hnone, v, hv, rfl⟩
  · cases h with
    | before _ _ hnone => simp [hnone] at hstart
    | between _ _ _ _ _ hnone => simp [hnone] at hstart
    | closed _ _ _ hnone => simp [hnone] at hstart
    | @row w lead rest items b _ hw hitems hlead hrec hphase hrow hpending hb hoff =>
      obtain ⟨hle, hrows, point, hpoint, rfl⟩ := visit_ok.1 hu
      obtain ⟨item, hok, hilead, hraw, hvalue⟩ := row_item hjson s.pending (by simp [hpoint])
        (by simp [hpending]) hb hlead
      have hitems' : ∀ i ∈ items ++ [item], i.Ok :=
        List.forall_mem_append.2 ⟨hitems, by simpa using hok⟩
      have htext : item.text = lead ++ b :: rest := by
        rw [← hpending, ← hraw, ← hilead]
        rfl
      have hat : start = w.length + 1 + (closed items).length + item.lead.length := by
        have hstart := Option.some.inj (hstart.symm.trans hrow)
        rw [hstart, hilead]
        simp only [List.length_append, List.length_cons]
        omega
      have hrec' : Recorded json (w.length + 1) (items ++ [item]) v := by
        have hrest := between_visits hv
        refine ⟨?_, ?_, ?_, List.forall_mem_append.2 ⟨hrec.row_le, by simpa [hraw] using hle⟩⟩
        · rw [hrest.1, List.map_append, hrec.visits, seen_concat, hvalue, hpoint, hraw, hat,
            Nat.zero_add, ← hrec.rows]
          rfl
        · rw [hrest.2, List.length_append, hrec.rows]
          rfl
        · rw [List.length_append, ← hrec.rows]
          exact hrows
      have hnot : isBlank c = false := by
        simp only [Reader.ends, Bool.and_eq_true, Bool.or_eq_true, decide_eq_true_eq] at hends
        rcases hends.2 with rfl | rfl <;> decide
      rcases between_ok hv with
        ⟨hc, -⟩ | ⟨-, ⟨hp, -⟩ | ⟨hp, -⟩ | ⟨hp, -⟩ | ⟨-, rfl, rfl⟩ | ⟨-, rfl, rfl⟩⟩
      · exact absurd hc (by simp [hnot])
      · cases hp
      · cases hp
      · simp at hp
      · have hshape : w ++ '[' :: (closed items ++ (lead ++ b :: rest)) ++ [','] =
            w ++ '[' :: (closed (items ++ [item]) ++ []) := by simp [closed, htext]
        rw [hshape]
        refine .between hw hitems' (by simp [Blank]) (hrec'.congr rfl rfl)
          (by simp [Scan.advance]) rfl ?_
        rw [← hshape, List.length_append, ← hoff]
        rfl
      · have ha : (⟨w, items ++ [item], [], []⟩ : Listing).Ok :=
          ⟨hw, hitems', by simp [Blank], by simp [Blank]⟩
        have hshape : w ++ '[' :: (closed items ++ (lead ++ b :: rest)) ++ [']'] =
            (⟨w, items ++ [item], [], []⟩ : Listing).text := by
          simp [Listing.text, Listing.body, joined_concat, htext]
        rw [hshape]
        refine .closed ha (hrec'.congr rfl rfl) rfl rfl ?_
        rw [← hshape, List.length_append, ← hoff]
        rfl
  · cases h with
    | before _ _ hnone => simp [hnone] at hstart
    | between _ _ _ _ _ hnone => simp [hnone] at hstart
    | closed _ _ _ hnone => simp [hnone] at hstart
    | @row w lead rest items b _ hw hitems hlead hrec hphase hrow hpending hb hoff =>
      have hshape : w ++ '[' :: (closed items ++ (lead ++ b :: rest)) ++ [c] =
          w ++ '[' :: (closed items ++ (lead ++ b :: (rest ++ [c]))) := by simp
      rw [hshape]
      refine .row hw hitems hlead (hrec.congr rfl rfl) hphase hrow (by simp [hpending]) hb ?_
      rw [← hshape, List.length_append, ← hoff]
      rfl
  · exact follows_between h hnone hv

theorem follows_reads (hjson : Decodes json) (h : Follows json text s) {rest : Text}
    (hr : s.reads json rest = .ok t) : Follows json (text ++ rest) t := by
  induction rest generalizing s text with
  | nil =>
    cases hr
    simpa using h
  | cons c rest ih =>
    obtain ⟨u, hu, hr⟩ := bind_eq_ok.1 hr
    have hnext := ih (follows_read hjson h hu) hr
    simpa using hnext

/-- What the whole scan accepts is an array within the bounds, and its visits are the elements. -/
theorem listing_of_reads (hjson : Decodes json) (h : ({} : Scan α).reads json text = .ok t)
    (hphase : t.phase = .closed) :
    ∃ a : Listing, a.Ok ∧ a.text = text ∧ Recorded json (a.before.length + 1) a.items t := by
  have hfollows := follows_reads hjson
    (.before (by simp [Blank]) rfl rfl rfl rfl rfl : Follows json [] {}) h
  rw [List.nil_append] at hfollows
  cases hfollows with
  | before _ hp => simp [hp] at hphase
  | between _ _ _ _ hp | row _ _ _ _ hp =>
    rw [hp] at hphase
    split at hphase <;> cases hphase
  | closed hok hrec => exact ⟨_, hok, rfl, hrec⟩

/-! Every array within the bounds is accepted. -/

/-- The machine between rows. -/
def idle (phase : Phase) (reader : Reader) (offset : ℕ) (visits : List (Visit α)) : Scan α :=
  { phase, reader, offset, rows := visits.length, visits }

theorem reads_blank {phase : Phase} {r : Reader} {offset : ℕ} (h : Blank w) :
    (idle phase r offset visits).reads json w = .ok (idle phase r (offset + w.length) visits) := by
  induction w generalizing offset with
  | nil => rfl
  | cons c w ih =>
    obtain ⟨hc, hw⟩ := List.forall_mem_cons.1 h
    have hread : (idle phase r offset visits).read json c = .ok
        (idle phase r (offset + 1) visits) := by
      simp [Scan.read, Scan.between, hc, idle, Scan.advance, bind, Except.bind, pure, Except.pure]
    rw [Scan.reads, hread]
    show (idle phase r (offset + 1) visits).reads json w = _
    rw [ih hw, List.length_cons, Nat.add_assoc, Nat.add_comm 1]

/-- In a row the machine is the reader. -/
theorem reads_passes {start : ℕ} {r' : Reader} (h : s.reader.Passes text r')
    (hstart : s.start = some start) : s.reads json text = .ok
      { s with reader := r', pending := s.pending ++ text, offset := s.offset + text.length } := by
  induction text generalizing s with
  | nil =>
    obtain rfl : s.reader = r' := h
    simp [Scan.reads]
  | cons c text ih =>
    obtain ⟨hends, reader, hread, hpasses⟩ := h
    have hone : s.read json c =
        .ok { s with reader, pending := s.pending ++ [c], offset := s.offset + 1 } := by
      simp [Scan.read, hstart, hends, hread]
    rw [Scan.reads, hone]
    have hrest := @ih { s with reader, pending := s.pending ++ [c], offset := s.offset + 1 } hpasses
      hstart
    refine hrest.trans ?_
    simp [Nat.add_comm, Nat.add_left_comm]

/-- A row with its delimiter. -/
theorem reads_row {phase : Phase} (r : Reader) (offset : ℕ) {point : α}
    (hphase : phase = .opened ∨ phase = .comma) (hok : item.Ok)
    (hpoint : json (rowText item) = some point) (hle : (rowText item).length ≤ rowLimit)
    (hrows : visits.length + 1 ≤ rowsLimit) (hd : d = ',' ∨ d = ']') :
    (idle phase r offset visits).reads json (item.text ++ [d]) =
      .ok (idle (if d = ',' then .comma else .closed) (outside 0) (offset + item.text.length + 1)
        (visits ++
          [⟨point, offset + item.lead.length, (rowText item).length, visits.length⟩])) := by
  obtain ⟨c, rest, hvalue, hc⟩ := hok.value.head
  have hraw : rowText item = c :: (rest ++ item.trail) := by simp [rowText, hvalue]
  have hpass : (outside 0).Passes (rowText item) (outside 0) :=
    (hok.value.passes (by simp [Kind.floor])).append hok.trail.passes
  rw [hraw] at hpass
  obtain ⟨hends, reader, hread, hpass⟩ := hpass
  obtain rfl := read_start hread
  have hnot : c ≠ ',' ∧ c ≠ ']' := by
    constructor <;> rintro rfl <;> cases hends
  have htext : item.text ++ [d] = item.lead ++ (c :: ((rest ++ item.trail) ++ [d])) := by
    simp [Item.text, hvalue]
  -- the row begins behind its white space
  let begun : Scan α := {
    idle phase r (offset + item.lead.length) visits with
      start := some (offset + item.lead.length), reader := .start c, pending := [c]
      offset := offset + item.lead.length + 1 }
  have hfirst : (idle phase r (offset + item.lead.length) visits).read json c = .ok begun := by
    rcases hphase with rfl | rfl <;>
      simp [Scan.read, Scan.between, hc, hnot, idle, Scan.advance, begun, bind, Except.bind, pure,
        Except.pure]
  have hmiddle := @reads_passes α json begun _ _ _ hpass rfl
  let full : Scan α := { begun with
    reader := outside 0, pending := begun.pending ++ (rest ++ item.trail)
    offset := begun.offset + (rest ++ item.trail).length }
  have hpending : full.pending = rowText item := by simp [full, begun, hraw]
  have hoffset : full.offset = offset + item.text.length := by
    simp only [full, begun, Item.text, hvalue, List.length_append, List.length_cons]
    omega
  have hvisit : full.visit json (offset + item.lead.length) full.pending = .ok _ :=
    visit_ok.2 ⟨hpending ▸ hle, hrows, point, hpending ▸ hpoint, rfl⟩
  have hlast : full.reads json [d] =
      .ok (idle (if d = ',' then .comma else .closed) (outside 0) (offset + item.text.length + 1)
        (visits ++
          [⟨point, offset + item.lead.length, (rowText item).length, visits.length⟩])) := by
    have hends : (outside 0).ends d = true := by rcases hd with rfl | rfl <;> rfl
    have hstart : full.start = some (offset + item.lead.length) := rfl
    have hreader : full.reader = outside 0 := rfl
    rw [Scan.reads, Scan.read, hstart]
    simp only [hreader, hends, if_true, hvisit]
    have hvisits : full.visits = visits ∧ full.rows = visits.length := ⟨rfl, rfl⟩
    rcases hd with rfl | rfl <;>
      simp [Scan.between, isBlank, Scan.advance, Scan.reads, bind, Except.bind, pure, Except.pure,
        idle, hpending, hoffset, hvisits]
  rw [htext, reads_append, reads_blank hok.lead]
  show (idle phase r (offset + item.lead.length) visits).reads json _ = _
  rw [Scan.reads, hfirst]
  show begun.reads json _ = _
  rw [reads_append, hmiddle]
  exact hlast

/-- A row without the white space in front decodes to its value. -/
theorem json_rowText (hjson : Decodes json) (hok : item.Ok) :
    ∃ point, json (rowText item) = some point ∧ json item.value = some point := by
  have hrow : Item.Ok ⟨[], item.value, item.trail⟩ := ⟨by simp [Blank], hok.value, hok.trail⟩
  have hsome := (hjson.accepts _).2 (element_iff.2 ⟨_, hrow, rfl⟩)
  obtain ⟨point, hpoint⟩ := Option.isSome_iff_exists.1 hsome
  exact ⟨point, hpoint, (hjson.blank _ hrow).symm.trans hpoint⟩

/-- Rows with a comma behind each. -/
theorem reads_closed (hjson : Decodes json) {phase : Phase} {r : Reader} {offset : ℕ}
    (hphase : phase = .opened ∨ phase = .comma) (hok : ∀ item ∈ items, item.Ok)
    (hle : ∀ item ∈ items, (rowText item).length ≤ rowLimit)
    (hrows : visits.length + items.length ≤ rowsLimit) :
    ∃ phase' r' visits', (phase' = .opened ∨ phase' = .comma) ∧
      (idle phase r offset visits).reads json (closed items) =
        .ok (idle phase' r' (offset + (closed items).length) visits') ∧
      visits'.map Visit.seen = visits.map Visit.seen ++ seen json offset visits.length items ∧
      visits'.length = visits.length + items.length := by
  induction items generalizing phase r offset visits with
  | nil => exact ⟨phase, r, visits, hphase, rfl, by simp [seen], rfl⟩
  | cons item items ih =>
    obtain ⟨hitem, hitems⟩ := List.forall_mem_cons.1 hok
    obtain ⟨hrow, hrest⟩ := List.forall_mem_cons.1 hle
    rw [List.length_cons] at hrows
    obtain ⟨point, hpoint, hvalue⟩ := json_rowText hjson hitem
    have hone := reads_row r offset hphase hitem hpoint hrow
      (show visits.length + 1 ≤ rowsLimit by omega) (Or.inl rfl)
    rw [if_pos rfl] at hone
    obtain ⟨phase', r', visits', hphase', hreads, hmap, hlen⟩ := @ih
      (visits ++ [⟨point, offset + item.lead.length, (rowText item).length, visits.length⟩]) .comma
      (outside 0) (offset + item.text.length + 1) (Or.inr rfl) hitems hrest (by simp; omega)
    have hclosed : closed (item :: items) = (item.text ++ [',']) ++ closed items := rfl
    refine ⟨phase', r', visits', hphase', ?_, ?_, ?_⟩
    · rw [hclosed, reads_append, hone]
      refine hreads.trans ?_
      congr 2
      simp only [List.length_append, List.length_singleton]
      omega
    · rw [hmap]
      simp [seen, Visit.seen, hvalue]
    · rw [hlen]
      simp
      omega

/-- An array within the bounds is read to its end, and each element is visited. -/
theorem reads_listing (hjson : Decodes json) (a : Listing) (hok : a.Ok)
    (hrows : a.items.length ≤ rowsLimit)
    (hle : ∀ item ∈ a.items, (rowText item).length ≤ rowLimit) :
    ∃ t : Scan α, ({} : Scan α).reads json a.text = .ok t ∧ t.phase = .closed ∧ t.start = none ∧
      t.visits.map Visit.seen = seen json (a.before.length + 1) 0 a.items := by
  have hafter {r : Reader} {offset : ℕ} {visits : List (Visit α)} :
      (idle .closed r offset visits).reads json a.after =
        .ok (idle .closed r (offset + a.after.length) visits) := reads_blank hok.after
  have hopen : (idle (α := α) .before {} (0 + a.before.length) []).read json '[' =
      .ok (idle .opened {} (0 + a.before.length + 1) []) := by
    simp [Scan.read, Scan.between, isBlank, idle, Scan.advance, bind, Except.bind,
      pure, Except.pure]
  -- what is left to read behind the opening bracket
  suffices hbody : ∃ r offset visits, (idle .opened {} (0 + a.before.length + 1) []).reads json
      (a.body ++ [']']) = .ok (idle .closed r offset visits) ∧
      visits.map Visit.seen = seen json (a.before.length + 1) 0 a.items by
    obtain ⟨r, offset, visits, hreads, hvisits⟩ := hbody
    have htext : a.text = a.before ++ ('[' :: ((a.body ++ [']']) ++ a.after)) := by
      simp [Listing.text]
    refine ⟨idle .closed r (offset + a.after.length) visits, ?_, rfl, rfl, hvisits⟩
    rw [htext, reads_append]
    show (do let s ← (idle .before {} 0 []).reads json a.before; s.reads json _) = _
    rw [reads_blank hok.before]
    show (do let s ← (idle .before {} (0 + a.before.length) []).read json '['; s.reads json _) = _
    rw [hopen]
    show (idle .opened {} (0 + a.before.length + 1) []).reads json _ = _
    rw [reads_append, hreads]
    exact hafter
  unfold Listing.body
  rcases List.eq_nil_or_concat a.items with hnil | ⟨init, last, hconcat⟩
  · rw [if_pos hnil, hnil, reads_append, reads_blank hok.inner]
    refine ⟨{}, 0 + a.before.length + 1 + a.inner.length + 1, [], ?_, rfl⟩
    simp [Scan.reads, Scan.read, Scan.between, isBlank, idle, Scan.advance, bind, Except.bind, pure,
      Except.pure]
  · rw [List.concat_eq_append] at hconcat
    have hitems := hok.items
    rw [hconcat, List.forall_mem_append] at hitems hle
    rw [hconcat, List.length_append, List.length_singleton] at hrows
    have hlast : last.Ok := hitems.2 last (List.mem_singleton_self last)
    obtain ⟨point, hpoint, hvalue⟩ := json_rowText hjson hlast
    obtain ⟨phase, r, visits, hphase, hreads, hmap, hlen⟩ :=
      @reads_closed α json init [] hjson .opened {} (0 + a.before.length + 1) (Or.inl rfl)
        hitems.1 hle.1
        (by simp only [List.length_nil]; omega)
    rw [List.length_nil, Nat.zero_add] at hlen
    have hrow := reads_row r (0 + a.before.length + 1 + (closed init).length) hphase hlast hpoint
      (hle.2 last (List.mem_singleton_self last)) (show visits.length + 1 ≤ rowsLimit by omega)
      (Or.inr rfl)
    have hshape : joined (init ++ [last]) ++ [']'] = closed init ++ (last.text ++ [']']) := by
      rw [joined_concat, List.append_assoc]
    rw [if_neg (by simp [hconcat]), hconcat, hshape, reads_append, hreads]
    refine ⟨_, _, _, hrow, ?_⟩
    rw [List.map_append, hmap, seen_concat]
    simp [Visit.seen, hvalue, hlen]

/-- The places of the elements hold their texts. -/
theorem slice_seen (hjson : Decodes json) {before rest : Text} {order : ℕ}
    (hitems : ∀ item ∈ items, item.Ok) : ∀ row ∈ seen json before.length order items,
      json (((before ++ (joined items ++ rest)).drop row.2.1).take row.2.2.1) = row.1 := by
  induction items generalizing before order with
  | nil => simp [seen]
  | cons item items ih =>
    obtain ⟨hitem, hitems⟩ := List.forall_mem_cons.1 hitems
    obtain ⟨point, hpoint, hvalue⟩ := json_rowText hjson hitem
    have hsplit : ∃ behind, before ++ (joined (item :: items) ++ rest) =
        (before ++ item.lead) ++ (rowText item ++ behind) := by
      cases items with
      | nil => exact ⟨rest, by simp [joined, Item.text, rowText]⟩
      | cons next items => exact ⟨_, by simp [joined, Item.text, rowText]; rfl⟩
    intro row hrow
    rcases List.mem_cons.1 hrow with rfl | hrow
    · obtain ⟨behind, hsplit⟩ := hsplit
      dsimp only
      rw [hsplit, ← List.length_append, List.drop_left, List.take_left, hpoint, hvalue]
    · cases items with
      | nil => simp [seen] at hrow
      | cons next items =>
        have hbefore : (before ++ (item.text ++ [','])).length = before.length +
            item.text.length + 1 := by
          simp [Nat.add_assoc]
        have hshape : before ++ (joined (item :: next :: items) ++ rest) =
            (before ++ (item.text ++ [','])) ++ (joined (next :: items) ++ rest) := by
          simp [joined]
        rw [hshape]
        refine @ih _ (order + 1) hitems row ?_
        rw [hbefore]
        exact hrow

/-- What a scan returns depends on the bytes alone. -/
theorem scanRows_eq_ok {chunks : List Text} (hne : ∀ chunk ∈ chunks, chunk ≠ []) :
    scanRows json (chunks.map some) = .ok (visits, n) ↔
      ∃ t, ({} : Scan α).reads json chunks.flatten = .ok t ∧ t.phase = .closed ∧ t.start = none ∧
        chunks.flatten.length ≤ maximum ∧ t.visits = visits ∧ chunks.flatten.length = n := by
  refine (run_eq_ok hne (fun _ => rfl) rfl (Nat.zero_le _)).trans (exists_congr fun t => ?_)
  refine and_congr_right fun hreads => ?_
  have hlen : t.offset = chunks.flatten.length := by
    have hkept := (reads_kept hreads (fun _ => rfl) rfl).2.2
    simpa using hkept
  rw [hlen]

/-- The scan succeeds if and only if the bytes are one JSON array within the bounds; it visits the
elements in order, and each visit tells where its text is; however the bytes come in chunks. -/
theorem scan_rows_exact (hjson : Decodes json) (chunks : List Text)
    (hne : ∀ chunk ∈ chunks, chunk ≠ []) :
    (Succeeds (scanRows json (chunks.map some)) ↔ ∃ a : Listing, a.Ok ∧ a.text = chunks.flatten ∧
      a.items.length ≤ 18000 ∧ (∀ item ∈ a.items, (rowText item).length ≤ 65536) ∧
      chunks.flatten.length ≤ 6000000) ∧
    (∀ visits n, scanRows json (chunks.map some) = .ok (visits, n) → n = chunks.flatten.length ∧
      (∃ a : Listing, a.Ok ∧ a.text = chunks.flatten ∧
        visits.map Visit.seen = seen json (a.before.length + 1) 0 a.items) ∧
      ∀ visit ∈ visits,
        json ((chunks.flatten.drop visit.start).take visit.bytes) = some visit.point) ∧
    ∀ chunks' : List Text, (∀ chunk ∈ chunks', chunk ≠ []) → chunks'.flatten = chunks.flatten →
      (scanRows json (chunks'.map some)).toOption = (scanRows json (chunks.map some)).toOption := by
  refine ⟨?_, fun visits n h => ?_, fun chunks' hne' hsame => ?_⟩
  · constructor
    · rintro ⟨⟨visits, n⟩, h⟩
      obtain ⟨t, hreads, hphase, -, hmax, -, -⟩ := (scanRows_eq_ok hne).1 h
      obtain ⟨a, hok, htext, hrec⟩ := listing_of_reads hjson hreads hphase
      exact ⟨a, hok, htext, hrec.rows_le, hrec.row_le, hmax⟩
    · rintro ⟨a, hok, htext, hrows, hle, hmax⟩
      obtain ⟨t, hreads, hphase, hstart, -⟩ := reads_listing hjson a hok hrows hle
      exact ⟨(t.visits, chunks.flatten.length),
        (scanRows_eq_ok hne).2 ⟨t, htext ▸ hreads, hphase, hstart, hmax, rfl, rfl⟩⟩
  · obtain ⟨t, hreads, hphase, -, -, rfl, rfl⟩ := (scanRows_eq_ok hne).1 h
    obtain ⟨a, hok, htext, hrec⟩ := listing_of_reads hjson hreads hphase
    refine ⟨rfl, ⟨a, hok, htext, hrec.visits⟩, fun visit hv => ?_⟩
    have hmem := List.mem_map_of_mem (f := Visit.seen) hv
    rw [hrec.visits] at hmem
    have hlen : (a.before ++ ['[']).length = a.before.length + 1 := by simp
    rw [← hlen] at hmem
    have hne : a.items ≠ [] := by
      intro hnil
      simp [hnil, seen] at hmem
    have hshape : chunks.flatten = (a.before ++ ['[']) ++ (joined a.items ++ (']' :: a.after)) := by
      rw [← htext]
      simp [Listing.text, Listing.body, hne]
    rw [hshape]
    exact slice_seen hjson hok.items _ hmem
  · have heq (r : List (Visit α) × ℕ) : scanRows json (chunks'.map some) = .ok r ↔
        scanRows json (chunks.map some) = .ok r := by
      obtain ⟨visits, n⟩ := r
      rw [scanRows_eq_ok hne', scanRows_eq_ok hne, hsame]
    cases h : scanRows json (chunks.map some) with
    | ok r =>
      rw [(heq r).2 h]
    | error e =>
      cases h' : scanRows json (chunks'.map some) with
      | ok r => exact absurd ((heq r).1 h') (by simp [h])
      | error e' => rfl

/-! Two rows in two chunks, and a row that is too long and does not end. -/

open Classical in
/-- A decoder that returns the text of the value, without its white space. -/
noncomputable def bareJson (t : Text) : Option Text :=
  if Derives .element t then some (t.filter fun c => !isBlank c) else none

theorem filter_blank (h : Blank w) : w.filter (fun c => !isBlank c) = [] := by
  rw [List.filter_eq_nil_iff]
  intro c hc
  simp [h c hc]

theorem bareJson_decodes : Decodes bareJson where
  accepts t := by
    unfold bareJson
    split <;> simp_all
  blank item hok := by
    have hvalue : Item.Ok ⟨[], item.value, []⟩ := ⟨by simp [Blank], hok.value, by simp [Blank]⟩
    have htext : Derives .element item.value :=
      element_iff.2 ⟨_, hvalue, by simp [Item.text]⟩
    unfold bareJson
    rw [if_pos (element_iff.2 ⟨item, hok, rfl⟩), if_pos htext, Item.text, List.filter_append,
      List.filter_append, filter_blank hok.lead, filter_blank hok.trail, List.nil_append,
      List.append_nil]

theorem one_digit (h : c.isDigit = true) (hc : c ≠ '0') : Derives .value [c] :=
  .number ⟨[], [c], [], [], rfl, Or.inl rfl,
    Or.inr ⟨⟨by simp, by simpa using h⟩, by simpa using hc⟩,
    Or.inl rfl, Or.inl rfl⟩

theorem scan_rows_two :
    Succeeds (scanRows bareJson ([['[', '1', ' '], [',', '2', ']']].map some)) := by
  refine (scan_rows_exact bareJson_decodes _ (by simp)).1.2
    ⟨⟨[], [⟨[], ['1'], [' ']⟩, ⟨[], ['2'], []⟩], [], []⟩, ?_, rfl, by decide, by decide, by decide⟩
  have hone : Derives .value ['1'] := one_digit (by decide) (by decide)
  have htwo : Derives .value ['2'] := one_digit (by decide) (by decide)
  refine ⟨by simp [Blank], ?_, by simp [Blank], by simp [Blank]⟩
  simp only [List.forall_mem_cons, List.not_mem_nil, false_imp_iff, implies_true, and_true]
  exact ⟨⟨by simp [Blank], hone, by simp [Blank, isBlank]⟩,
    ⟨by simp [Blank], htwo, by simp [Blank]⟩⟩

def letters (n : ℕ) : Text := List.replicate n 'a'

theorem length_letters : (letters n).length = n := List.length_replicate

/-- The machine in a row of letters. -/
def inLetters (n : ℕ) : Scan α :=
  { phase := .opened, pending := letters n, start := some 1, offset := n + 1 }

theorem reads_letters (json : Text → Option α) (n k : ℕ) :
    (inLetters n : Scan α).reads json (letters k) = .ok (inLetters (n + k)) := by
  have hpass : (outside 0).Passes (letters k) (outside 0) := by
    refine passes_plain fun c hc => ?_
    rw [List.eq_of_mem_replicate hc]
    decide
  refine (@reads_passes α json (inLetters n) _ _ _ hpass rfl).trans ?_
  simp [inLetters, letters, outside, Nat.add_right_comm]

theorem chunk_letters (json : Text → Option α) {k : ℕ} (hmax : n + k + 1 ≤ maximum) :
    (inLetters n : Scan α).chunk json (letters k) =
      if n + k ≤ rowLimit then .ok (inLetters (n + k)) else .error .tooLarge := by
  have hoffset : (inLetters n : Scan α).offset + (letters k).length ≤ maximum := by
    simp only [inLetters, letters, List.length_replicate]
    omega
  have hlen : (inLetters (n + k) : Scan α).pending.length = n + k := by simp [inLetters, letters]
  rw [chunk_eq (fun h => by cases h) rfl, reads_letters]
  simp only [require, hoffset, if_true]
  show (do
    require ((inLetters (n + k) : Scan α).pending.length ≤ rowLimit) ScanError.tooLarge
    pure (inLetters (n + k))) = _
  rw [hlen]
  by_cases hle : n + k ≤ rowLimit
  · simp only [hle, require, if_true]
    rfl
  · simp only [hle, require, if_false]
    rfl

/-- Chunks of letters, up to the limit of a row. -/
theorem run_letters {k m : ℕ} {reader : List (Option Text)} (hk : 0 < k)
    (hle : n + m * k ≤ rowLimit) :
    (inLetters n : Scan α).run json ((List.replicate m (letters k)).map some ++ reader) =
      (inLetters (n + m * k) : Scan α).run json reader := by
  induction m generalizing n with
  | zero => simp
  | succ m ih =>
    have hmul : n + (m + 1) * k = n + k + m * k := by rw [Nat.succ_mul]; omega
    rw [hmul] at hle ⊢
    have hchunk := chunk_letters json
      (show n + k + 1 ≤ maximum by unfold maximum; unfold rowLimit at hle; omega)
    rw [if_pos (by omega)] at hchunk
    obtain ⟨j, rfl⟩ : ∃ j, k = j + 1 := ⟨k - 1, by omega⟩
    have hletters : letters (j + 1) = 'a' :: letters j := rfl
    rw [List.replicate_succ, List.map_cons, List.cons_append, hletters, Scan.run,
      ← hletters, hchunk]
    exact ih hle

/-- The first chunk opens the array and begins the row. -/
theorem chunk_first (json : Text → Option α) {k : ℕ} (hk : 0 < k) (hle : k ≤ rowLimit) :
    ({} : Scan α).chunk json ('[' :: letters k) = .ok (inLetters k) := by
  obtain ⟨j, rfl⟩ : ∃ j, k = j + 1 := ⟨k - 1, by omega⟩
  have hreads : ({} : Scan α).reads json ('[' :: letters (j + 1)) = .ok (inLetters (j + 1)) := by
    have hopen : ({} : Scan α).read json '[' = .ok (idle .opened {} 1 []) := by
      simp [Scan.read, Scan.between, isBlank, idle, Scan.advance, bind, Except.bind,
        pure, Except.pure]
    have hrow : (idle (α := α) .opened {} 1 []).read json 'a' = .ok (inLetters 1) := by
      simp [Scan.read, Scan.between, isBlank, idle, Scan.advance, bind, Except.bind, pure,
        Except.pure, inLetters, letters, Reader.start]
    rw [Scan.reads, hopen]
    show (idle .opened {} 1 []).reads json ('a' :: letters j) = _
    rw [Scan.reads, hrow]
    show (inLetters 1).reads json (letters j) = _
    rw [reads_letters, Nat.add_comm]
  have hmax : ({} : Scan α).offset + ('[' :: letters (j + 1)).length ≤ maximum := by
    simp only [List.length_cons, letters, List.length_replicate]
    unfold maximum
    unfold rowLimit at hle
    omega
  have hpending : (inLetters (j + 1) : Scan α).pending.length ≤ rowLimit := by
    simpa [inLetters, letters] using hle
  rw [chunk_eq (fun _ => rfl) rfl, hreads]
  simp only [require, hmax, if_true]
  show (do require _ _; _) = _
  simp only [require, hpending, if_true]
  rfl

/-- One chunk end between the limit and a bracket that closes nothing, or none there. -/
theorem run_last (json : Text → Option α) (hn : n + 1 = rowLimit) :
    (inLetters n : Scan α).run json ([letters 2, ['\x7d']].map some) = .error .tooLarge ∧
    (inLetters n : Scan α).run json ([letters 1, ['a', '\x7d']].map some) = .error .invalid := by
  have hmax : n + 2 + 1 ≤ maximum := by
    unfold maximum
    unfold rowLimit at hn
    omega
  constructor
  · have hchunk := chunk_letters json hmax
    rw [if_neg (by omega)] at hchunk
    have hletters : letters 2 = 'a' :: letters 1 := rfl
    rw [List.map_cons, hletters, Scan.run, ← hletters, hchunk]
    rfl
  · have hchunk := chunk_letters json (show n + 1 + 1 ≤ maximum by omega)
    rw [if_pos (by omega)] at hchunk
    have hreads : (inLetters (n + 1) : Scan α).reads json ['a', '\x7d'] = .error .invalid := by
      have hone := reads_letters json (n + 1) 1
      have hsplit : ['a', '\x7d'] = letters 1 ++ ['\x7d'] := rfl
      rw [hsplit, reads_append, hone]
      rfl
    have hlast : (inLetters (n + 1) : Scan α).chunk json ['a', '\x7d'] = .error .invalid := by
      have hoffset : (inLetters (n + 1) : Scan α).offset + ['a', '\x7d'].length ≤ maximum := by
        simp only [inLetters, List.length_cons, List.length_nil]
        unfold maximum
        unfold rowLimit at hn
        omega
      rw [chunk_eq (fun h => by cases h) rfl, hreads]
      simp only [require, hoffset, if_true]
      rfl
    have hletters : letters 1 = 'a' :: letters 0 := rfl
    rw [List.map_cons, hletters, Scan.run, ← hletters, hchunk]
    show (inLetters (n + 1)).run json [some ['a', '\x7d']] = _
    rw [Scan.run, hlast]
    rfl

theorem scan_letters (json : Text → Option α) (tail : List Text) {k m : ℕ} (hk : 0 < k) (hn : 0 < n)
    (hle : n + m * k ≤ rowLimit) :
    scanRows json ((('[' :: letters n) :: (List.replicate m (letters k) ++ tail)).map some) =
      (inLetters (n + m * k) : Scan α).run json (tail.map some) := by
  have hfirst := chunk_first json hn (le_trans (Nat.le_add_right _ _) hle)
  rw [scanRows, List.map_cons, Scan.run, hfirst, List.map_append]
  exact run_letters hk hle

/-- Which error a scan dies with depends on where a chunk ends. -/
theorem scan_rows_split : ¬ ∀ json : Text → Option Text, Decodes json →
    ∀ chunks chunks' : List Text,
    (∀ chunk ∈ chunks, chunk ≠ [] ∧ chunk.length ≤ 4096) →
    (∀ chunk ∈ chunks', chunk ≠ [] ∧ chunk.length ≤ 4096) → chunks.flatten = chunks'.flatten →
    scanRows json (chunks.map some) = scanRows json (chunks'.map some) := by
  intro h
  obtain ⟨k, n, m, hk, hn, hm⟩ : ∃ k n m : ℕ, k = 4096 ∧ n = 4095 ∧ m = 15 :=
    ⟨_, _, _, rfl, rfl, rfl⟩
  have hlimit : n + m * k + 1 = rowLimit := by
    subst hk hn hm
    rfl
  have hshort (tail : List Text) (htail : ∀ chunk ∈ tail, chunk ≠ [] ∧ chunk.length ≤ 4096) :
      ∀ chunk ∈ ('[' :: letters n) :: (List.replicate m (letters k) ++ tail),
        chunk ≠ [] ∧ chunk.length ≤ 4096 := by
    intro chunk hchunk
    rcases List.mem_cons.1 hchunk with rfl | hchunk
    · exact ⟨by simp, by rw [List.length_cons, length_letters]; omega⟩
    · rcases List.mem_append.1 hchunk with hchunk | hchunk
      · rw [List.eq_of_mem_replicate hchunk]
        exact ⟨List.ne_nil_of_length_pos (by rw [length_letters]; omega),
          by rw [length_letters]; omega⟩
      · exact htail chunk hchunk
  have hends := run_last bareJson hlimit
  have hfirst := scan_letters bareJson [letters 2, ['\x7d']] (show 0 < k by omega)
      (show 0 < n by omega)
    (show n + m * k ≤ rowLimit by omega)
  have hsecond := scan_letters bareJson [letters 1, ['a', '\x7d']] (show 0 < k by omega)
    (show 0 < n by omega) (show n + m * k ≤ rowLimit by omega)
  have hsame := h bareJson bareJson_decodes _ _ (hshort [letters 2, ['\x7d']] (by decide))
    (hshort [letters 1, ['a', '\x7d']] (by decide)) (by simp [letters, List.replicate])
  rw [hfirst, hsecond, hends.1, hends.2] at hsame
  cases hsame

end Foxhole.History
