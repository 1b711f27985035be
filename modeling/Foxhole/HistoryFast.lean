import Foxhole.HistoryExact

/-! Reading the rows line by line: scan_rows_fast of history.uc, for files that the sampler has
written. -/
namespace Foxhole.History
open Check Json Text

inductive FastError where
  | readFailed
  | tooLarge
  /-- `history_fast_format` -/
  | format
  | json
deriving DecidableEq

/-- The variables of `scan_rows_fast`. -/
structure Fast (α : Type) where
  phase : Phase := .before
  rows : ℕ := 0
  offset : ℕ := 0
  pending : Text := []
  lineStart : ℕ := 0
  visits : List (Visit α) := []
deriving DecidableEq

def lineLimit : ℕ := 65540

variable {α : Type}

/-- `index(raw, text)`, for a text that occurs. -/
def index (raw text : Text) : ℕ :=
  match raw with
  | [] => 0
  | c :: rest => if text <+: c :: rest then 0 else index rest text + 1

/-- What `line` does with a trimmed text behind the opening bracket. -/
def Fast.row (json : Text → Option α) (s : Fast α) (text : Text) (position : ℕ) :
    Except FastError (Fast α) :=
  if text = [] then .ok s
  else
    let closing := text.getLast? = some ']'
    let text := if closing then trim text.dropLast else text
    if text = [] then do
      require (closing ∧ (s.phase = .opened ∨ s.phase = .ended)) .format
      return { s with phase := .closed }
    else do
      require (s.phase ≠ .ended) .format
      let comma := text.getLast? = some ','
      let text := if comma then trim text.dropLast else text
      require (text ≠ [] ∧ ¬ (closing ∧ comma) ∧ text.length ≤ rowLimit ∧ s.rows + 1 ≤ rowsLimit)
        .format
      match json text with
      | none => throw .json
      | some point => return { s with
          visits := s.visits ++ [⟨point, position, text.length, s.rows⟩], rows := s.rows + 1
          phase := if closing then .closed else if comma then .comma else .ended }

/-- `line(raw, position)` -/
def Fast.line (json : Text → Option α) (s : Fast α) (raw : Text) (position : ℕ) :
    Except FastError (Fast α) :=
  let text := trim raw
  if text = [] then .ok s
  else do
    let position := position + index raw text
    require (s.phase ≠ .closed) .format
    if s.phase = .before then do
      require (text.head? = some '[') .format
      let rest := text.tail
      let text := trim rest
      Fast.row json { s with phase := .opened } text
        (position + 1 + if text = [] then 0 else index rest text)
    else s.row json text position

/-- The parts of a chunk: a line ends behind each but the last. -/
def Fast.parts (json : Text → Option α) (s : Fast α) : List Text → Except FastError (Fast α)
  | [] => .ok s
  | [last] => do
    let pending := s.pending ++ last
    require (pending.length ≤ lineLimit) .format
    return { s with pending }
  | part :: next :: parts => do
    let raw := s.pending ++ part
    require (raw.length ≤ lineLimit) .format
    let s ← s.line json raw s.lineStart
    Fast.parts json { s with lineStart := s.lineStart + (raw.length + 1), pending := [] }
      (next :: parts)

def Fast.run (json : Text → Option α) (s : Fast α) :
    List (Option Text) → Except FastError (List (Visit α) × ℕ)
  | some (c :: chunk) :: reader => do
    let offset := s.offset + (c :: chunk).length
    require (offset ≤ maximum) .tooLarge
    let s ← Fast.parts json { s with offset } ((c :: chunk).splitOn '\n')
    s.run json reader
  | none :: _ => .error .readFailed
  | [] | some [] :: _ => do
    let s ← s.line json s.pending s.lineStart
    require (s.phase = .closed) .format
    return (s.visits, s.offset)

/-- The calls of `visit` and the result, or what the scan dies with. -/
def scanRowsFast (json : Text → Option α) (reader : List (Option Text)) :
    Except FastError (List (Visit α) × ℕ) := Fast.run json {} reader

variable {json : Text → Option α} {s t u : Fast α} {text raw w lead : Text} {c : Char}
  {items : List Item} {item : Item} {visits : List (Visit α)} {n position : ℕ}

/-! Trimming. -/

theorem isSpace_eq : isSpace c = isBlank c := by
  simp only [isSpace, isBlank]
  by_cases h₁ : c = ' ' <;> by_cases h₂ : c = '\t' <;> by_cases h₃ : c = '\r' <;>
    by_cases h₄ : c = '\n' <;> simp [h₁, h₂, h₃, h₄]

/-- A text that begins and ends with characters that are not blank. -/
structure Bare (t : Text) : Prop where
  head : ∀ c, t.head? = some c → isBlank c = false
  last : ∀ c, t.getLast? = some c → isBlank c = false

/-- What trimming takes off. -/
theorem trim_split (t : Text) : ∃ a b, Blank a ∧ Blank b ∧ t = a ++ (trim t ++ b) ∧
    Bare (trim t) := by
  refine ⟨t.takeWhile isSpace, (ltrim t).rtakeWhile isSpace, ?_, ?_, ?_, ?_, ?_⟩
  · exact fun c hc => isSpace_eq ▸ List.mem_takeWhile_imp hc
  · exact fun c hc => isSpace_eq ▸ List.mem_rtakeWhile_imp hc
  · rw [trim, List.rdropWhile_append_rtakeWhile, ltrim, List.takeWhile_append_dropWhile]
  · intro c hc
    have hpre : trim t <+: ltrim t := List.rdropWhile_prefix isSpace _
    obtain ⟨rest, hrest⟩ := hpre
    have hhead : (ltrim t).head? = some c := by rw [← hrest, List.head?_append, hc]; rfl
    have hne : t.dropWhile isSpace ≠ [] := by
      intro hnil
      rw [ltrim, hnil] at hhead
      cases hhead
    have hnot := List.head_dropWhile_not isSpace hne
    have hc' : (t.dropWhile isSpace).head hne = c := by
      have := List.head?_eq_some_head hne
      exact Option.some.inj (this.symm.trans hhead)
    rw [hc', isSpace_eq] at hnot
    exact hnot
  · intro c hc
    have hne : (ltrim t).rdropWhile isSpace ≠ [] := by
      intro hnil
      rw [trim, hnil] at hc
      cases hc
    have hnot := List.rdropWhile_last_not isSpace _ hne
    have hc' : ((ltrim t).rdropWhile isSpace).getLast hne = c := by
      have := List.getLast?_eq_some_getLast hne
      exact Option.some.inj (this.symm.trans hc)
    rw [hc', isSpace_eq] at hnot
    simpa using hnot

/-- A trimmed text is first found where it was trimmed out. -/
theorem index_eq {a b : Text} (ha : Blank a) (ht : Bare text) (hne : text ≠ []) :
    index (a ++ (text ++ b)) text = a.length := by
  obtain ⟨d, rest, rfl⟩ := List.exists_cons_of_ne_nil hne
  have hd := ht.head d rfl
  induction a with
  | nil => exact if_pos (List.prefix_append _ _)
  | cons e a ih =>
    obtain ⟨he, ha⟩ := List.forall_mem_cons.1 ha
    have hnot : ¬ (d :: rest) <+: e :: (a ++ ((d :: rest) ++ b)) := by
      rintro ⟨tail, htail⟩
      injection htail with hde _
      rw [← hde, hd] at he
      cases he
    rw [List.cons_append, index, if_neg hnot, ih ha, List.length_cons]

/-- A text of the grammar without white space around it is a value. -/
theorem value_of_bare (h : Derives .element text) (ht : Bare text) : Derives .value text := by
  obtain ⟨item, hok, rfl⟩ := element_iff.1 h
  have hlead : item.lead = [] := by
    cases hl : item.lead with
    | nil => rfl
    | cons b rest =>
      have hb := hok.lead b (by simp [hl])
      rw [ht.head b (by simp [Item.text, hl])] at hb
      cases hb
  have htrail : item.trail = [] := by
    rcases List.eq_nil_or_concat item.trail with hnil | ⟨init, b, hl⟩
    · exact hnil
    · rw [List.concat_eq_append] at hl
      have hb := hok.trail b (by simp [hl])
      rw [ht.last b (by simp [Item.text, hl])] at hb
      cases hb
  simpa [Item.text, hlead, htrail] using hok.value

/-- What is trimmed off in front of a last character. -/
theorem trim_init {init : Text} {d : Char} (ht : Bare (init ++ [d])) :
    ∃ b, Blank b ∧ init = trim init ++ b ∧ Bare (trim init) ∧ (trim init = [] → init = []) := by
  obtain ⟨a, b, ha, hb, hinit, hbare⟩ := trim_split init
  have hfirst (e : Char) (rest : Text) (hcons : init = e :: rest) : isBlank e = false :=
    ht.head e (by simp [hcons])
  have hnil : a = [] := by
    cases a with
    | nil => rfl
    | cons e a =>
      have he := ha e List.mem_cons_self
      rw [hfirst e _ hinit] at he
      cases he
  subst hnil
  rw [List.nil_append] at hinit
  refine ⟨b, hb, hinit, hbare, fun hempty => ?_⟩
  rw [hempty, List.nil_append] at hinit
  cases b with
  | nil => exact hinit
  | cons e b =>
    have he := hb e List.mem_cons_self
    rw [hfirst e _ hinit] at he
    cases he

theorem dropLast_concat_of_last {d : Char} (h : text.getLast? = some d) :
    text.dropLast ++ [d] = text := by
  obtain ⟨init, rfl⟩ := List.getLast?_eq_some_iff.1 h
  simp

/-- What stands behind the value in a line, and where that leads. -/
inductive Mark : Text → Phase → Prop
  | none : Mark [] .ended
  | comma : Mark [','] .comma
  | closing : Mark [']'] .closed

/-- A row is handed over. -/
def Fast.push (s : Fast α) (point : α) (position bytes : ℕ) (phase : Phase) : Fast α :=
  { s with
    visits := s.visits ++ [⟨point, position, bytes, s.rows⟩], rows := s.rows + 1, phase }

/-- What a trimmed line can do. -/
theorem row_ok (ht : Bare text) (h : s.row json text position = .ok u) :
    (text = [] ∧ u = s) ∨
    (text = [']'] ∧ (s.phase = .opened ∨ s.phase = .ended) ∧ u = { s with phase := .closed }) ∨
    ∃ value b mark phase point, text = value ++ (b ++ mark) ∧ Mark mark phase ∧ Blank b ∧
      (mark = [] → b = []) ∧ Bare value ∧ json value = some point ∧ s.phase ≠ .ended ∧
      s.rows + 1 ≤ rowsLimit ∧ u = s.push point position value.length phase := by
  unfold Fast.row at h
  by_cases hempty : text = []
  · rw [if_pos hempty] at h
    exact Or.inl ⟨hempty, (Except.ok.inj h).symm⟩
  rw [if_neg hempty] at h
  right
  by_cases hclosing : text.getLast? = some ']'
  · have hsplit := dropLast_concat_of_last hclosing
    obtain ⟨b, hb, hinit, hbare, hnil⟩ := trim_init (hsplit ▸ ht)
    simp only [hclosing, if_true] at h
    by_cases halone : trim text.dropLast = []
    · rw [if_pos halone] at h
      simp only [bind_eq_ok, require_eq_ok, pure_eq_ok] at h
      obtain ⟨_, ⟨-, hphase⟩, rfl⟩ := h
      rw [hnil halone, List.nil_append] at hsplit
      exact Or.inl ⟨hsplit.symm, hphase, rfl⟩
    · rw [if_neg halone] at h
      simp only [bind_eq_ok, require_eq_ok] at h
      obtain ⟨_, hphase, _, ⟨-, hcomma, hle, hrows⟩, h⟩ := h
      have hcomma : (trim text.dropLast).getLast? ≠ some ',' := fun hc => hcomma ⟨trivial, hc⟩
      simp only [hcomma, if_false] at h
      refine Or.inr ⟨trim text.dropLast, b, [']'], .closed, ?_⟩
      cases hj : json (trim text.dropLast) with
      | none => simp [hj] at h
      | some point =>
        simp only [hj, pure_eq_ok] at h
        refine ⟨point, ?_, .closing, hb, by simp, hbare, rfl, hphase, hrows, h.symm⟩
        rw [← List.append_assoc, ← hinit, hsplit]
  · simp only [hclosing, if_false, hempty, false_and, not_false_eq_true, true_and, bind_eq_ok,
      require_eq_ok] at h
    obtain ⟨_, hphase, _, ⟨hvalue, hle, hrows⟩, h⟩ := h
    right
    by_cases hcomma : text.getLast? = some ','
    · have hsplit := dropLast_concat_of_last hcomma
      obtain ⟨b, hb, hinit, hbare, -⟩ := trim_init (hsplit ▸ ht)
      simp only [hcomma, if_true] at h
      cases hj : json (trim text.dropLast) with
      | none => simp [hj] at h
      | some point =>
        simp only [hj, pure_eq_ok] at h
        refine ⟨trim text.dropLast, b, [','], .comma, point, ?_, .comma, hb, by simp, hbare, hj,
          hphase, hrows, h.symm⟩
        rw [← List.append_assoc, ← hinit, hsplit]
    · simp only [hcomma, if_false] at h
      cases hj : json text with
      | none => simp [hj] at h
      | some point =>
        simp only [hj, pure_eq_ok] at h
        exact ⟨text, [], [], .ended, point, by simp, .none, by simp [Blank], fun _ => rfl, ht, hj,
          hphase, hrows, h.symm⟩

/-! What the lines behind the reader hold. -/

/-- A call of `visit` without the length. -/
def Visit.place (visit : Visit α) : Option α × ℕ × ℕ := (some visit.point, visit.start, visit.order)

/-- The places of elements from this offset on. -/
def places (json : Text → Option α) (offset order : ℕ) (items : List Item) :
    List (Option α × ℕ × ℕ) :=
  (seen json offset order items).map fun row => (row.1, row.2.1, row.2.2.2)

theorem places_concat {offset order : ℕ} : places json offset order (items ++ [item]) =
    places json offset order items ++ [(json item.value,
      offset + (closed items).length + item.lead.length, order + items.length)] := by
  simp [places, seen_concat]

/-- What is recorded behind the elements: where each is, and how long its value. -/
structure Noted (json : Text → Option α) (offset : ℕ) (items : List Item) (s : Fast α) : Prop where
  places : s.visits.map Visit.place = places json offset 0 items
  bytes : s.visits.map (·.bytes) = items.map (·.value.length)
  rows : s.rows = items.length
  rows_le : items.length ≤ rowsLimit

/-- Where the reader is behind whole lines. -/
inductive Done (json : Text → Option α) : Text → Fast α → Prop
  | before {w : Text} {s : Fast α} : Blank w → s.phase = .before → s.visits = [] → s.rows = 0 →
      Done json w s
  | between {w lead : Text} {items : List Item} {s : Fast α} : Blank w → (∀ item ∈ items, item.Ok) →
      Blank lead → Noted json (w.length + 1) items s →
      s.phase = (if items = [] then .opened else .comma) →
      Done json (w ++ '[' :: (closed items ++ lead)) s
  | ended {w : Text} {items : List Item} {item : Item} {s : Fast α} : Blank w →
      (∀ item ∈ items, item.Ok) → item.Ok → Noted json (w.length + 1) (items ++ [item]) s →
      s.phase = .ended → Done json (w ++ '[' :: (closed items ++ item.text)) s
  | closed {a : Listing} {s : Fast α} : a.Ok → Noted json (a.before.length + 1) a.items s →
      s.phase = .closed → Done json a.text s

theorem Noted.congr {offset : ℕ} (h : Noted json offset items s) (hv : t.visits = s.visits)
    (hr : t.rows = s.rows) : Noted json offset items t :=
  ⟨hv ▸ h.places, hv ▸ h.bytes, hr ▸ h.rows, h.rows_le⟩

/-- White space behind a value does not move it. -/
theorem Noted.behind {offset : ℕ} (h : Noted json offset (items ++ [item]) s) (b : Text) :
    Noted json offset (items ++ [{ item with trail := item.trail ++ b }]) s := by
  refine ⟨?_, ?_, ?_, ?_⟩
  · rw [h.places, places_concat, places_concat]
  · rw [h.bytes]
    simp
  · rw [h.rows]
    simp
  · simpa using h.rows_le

theorem done_blank {b : Text} (h : Done json text s) (hb : Blank b) : Done json (text ++ b) s := by
  cases h with
  | before hw hphase hvisits hrows => exact .before (hw.append hb) hphase hvisits hrows
  | @between w lead items _ hw hitems hlead hnoted hphase =>
    have hshape : w ++ '[' :: (closed items ++ lead) ++ b =
        w ++ '[' :: (closed items ++ (lead ++ b)) := by simp
    rw [hshape]
    exact .between hw hitems (hlead.append hb) hnoted hphase
  | @ended w items item _ hw hitems hok hnoted hphase =>
    have hshape : w ++ '[' :: (closed items ++ item.text) ++ b =
        w ++ '[' :: (closed items ++ Item.text { item with trail := item.trail ++ b }) := by
      simp [Item.text]
    rw [hshape]
    exact .ended hw hitems ⟨hok.lead, hok.value, hok.trail.append hb⟩ (hnoted.behind b) hphase
  | @closed a _ hok hnoted hphase =>
    have hshape : a.text ++ b = Listing.text { a with after := a.after ++ b } := by
      simp [Listing.text, Listing.body]
    rw [hshape]
    exact .closed ⟨hok.before, hok.items, hok.inner, hok.after.append hb⟩ hnoted hphase

/-- The bracket alone on a line. -/
theorem done_bracket (h : Done json text s) (hphase : s.phase = .opened ∨ s.phase = .ended) :
    Done json (text ++ [']']) { s with phase := .closed } := by
  cases h with
  | before _ hp => simp [hp] at hphase
  | @between w lead items _ hw hitems hlead hnoted hp =>
    have hempty : items = [] := by
      by_contra hne
      rw [if_neg hne] at hp
      simp [hp] at hphase
    subst hempty
    have hshape : w ++ '[' :: (closed [] ++ lead) ++ [']'] =
        (⟨w, [], lead, []⟩ : Listing).text := by simp [Listing.text, Listing.body, closed]
    rw [hshape]
    exact .closed ⟨hw, by simp, hlead, by simp [Blank]⟩ (hnoted.congr rfl rfl) rfl
  | @ended w items item _ hw hitems hok hnoted hp =>
    have hshape : w ++ '[' :: (closed items ++ item.text) ++ [']'] =
        (⟨w, items ++ [item], [], []⟩ : Listing).text := by
      simp [Listing.text, Listing.body, joined_concat]
    rw [hshape]
    exact .closed ⟨hw, List.forall_mem_append.2 ⟨hitems, by simpa using hok⟩, by simp [Blank],
      by simp [Blank]⟩ (hnoted.congr rfl rfl) rfl
  | closed _ _ hp => simp [hp] at hphase

/-- A value, and what stands behind it on its line. -/
theorem done_value {value b mark lead : Text} {phase : Phase} {point : α} (h : Done json text s)
    (hlead : Blank lead) (hvalue : Derives .value value) (hb : Blank b) (hmark : Mark mark phase)
    (hpoint : json value = some point) (hphase : s.phase = .opened ∨ s.phase = .comma)
    (hrows : s.rows + 1 ≤ rowsLimit) :
    Done json (text ++ (lead ++ (value ++ (b ++ mark))))
      (s.push point (text.length + lead.length) value.length phase) := by
  cases h with
  | before _ hp => simp [hp] at hphase
  | ended _ _ _ _ hp => simp [hp] at hphase
  | closed _ _ hp => simp [hp] at hphase
  | @between w lead₀ items _ hw hitems hlead₀ hnoted hp =>
    have hok : Item.Ok ⟨lead₀ ++ lead, value, b⟩ := ⟨hlead₀.append hlead, hvalue, hb⟩
    have hitems' : ∀ i ∈ items ++ [⟨lead₀ ++ lead, value, b⟩], i.Ok :=
      List.forall_mem_append.2 ⟨hitems, by simpa using hok⟩
    have hat : (w ++ '[' :: (closed items ++ lead₀)).length + lead.length =
        w.length + 1 + (closed items).length + (lead₀ ++ lead).length := by
      simp only [List.length_append, List.length_cons]
      omega
    have hnoted' : Noted json (w.length + 1) (items ++ [⟨lead₀ ++ lead, value, b⟩])
        (s.push point ((w ++ '[' :: (closed items ++ lead₀)).length + lead.length) value.length
          phase) := by
      refine ⟨?_, ?_, ?_, ?_⟩
      · rw [places_concat, hpoint, hat, Nat.zero_add, ← hnoted.rows, ← hnoted.places]
        simp [Fast.push, Visit.place]
      · rw [List.map_append, ← hnoted.bytes]
        simp [Fast.push]
      · show s.rows + 1 = _
        rw [List.length_append, hnoted.rows]
        rfl
      · rw [List.length_append, ← hnoted.rows]
        exact hrows
    cases hmark with
    | none =>
      have hshape : w ++ '[' :: (closed items ++ lead₀) ++ (lead ++ (value ++ (b ++ []))) =
          w ++ '[' :: (closed items ++ Item.text ⟨lead₀ ++ lead, value, b⟩) := by simp [Item.text]
      rw [hshape]
      exact .ended hw hitems hok hnoted' rfl
    | comma =>
      have hshape : w ++ '[' :: (closed items ++ lead₀) ++ (lead ++ (value ++ (b ++ [',']))) =
          w ++ '[' :: (closed (items ++ [⟨lead₀ ++ lead, value, b⟩]) ++ []) := by
        simp [Item.text, closed]
      rw [hshape]
      exact .between hw hitems' (by simp [Blank]) hnoted' (by simp [Fast.push])
    | closing =>
      have hshape : w ++ '[' :: (closed items ++ lead₀) ++ (lead ++ (value ++ (b ++ [']']))) =
          (⟨w, items ++ [⟨lead₀ ++ lead, value, b⟩], [], []⟩ : Listing).text := by
        simp [Listing.text, Listing.body, joined_concat, Item.text]
      rw [hshape]
      exact .closed ⟨hw, hitems', by simp [Blank], by simp [Blank]⟩ hnoted' rfl

theorem Done.congr (h : Done json text s) (hp : t.phase = s.phase) (hv : t.visits = s.visits)
    (hr : t.rows = s.rows) : Done json text t := by
  cases h with
  | before hw hphase hvisits hrows => exact .before hw (hp ▸ hphase) (hv ▸ hvisits) (hr ▸ hrows)
  | between hw hitems hlead hnoted hphase =>
    exact .between hw hitems hlead (hnoted.congr hv hr) (hp ▸ hphase)
  | ended hw hitems hok hnoted hphase =>
    exact .ended hw hitems hok (hnoted.congr hv hr) (hp ▸ hphase)
  | closed hok hnoted hphase => exact .closed hok (hnoted.congr hv hr) (hp ▸ hphase)

/-- A trimmed line behind the opening bracket. -/
theorem row_done (hjson : Decodes json) {b t : Text} (h : Done json text s) (hlead : Blank lead)
    (hb : Blank b) (ht : Bare t) (hphase : s.phase ≠ .before ∧ s.phase ≠ .closed)
    (hrow : s.row json t position = .ok u)
    (hpos : t ≠ [] → position = text.length + lead.length) :
    Done json (text ++ (lead ++ (t ++ b))) u := by
  rcases row_ok ht hrow with ⟨rfl, rfl⟩ | ⟨rfl, hp, rfl⟩ |
    ⟨value, b', mark, phase, point, rfl, hmark, hb', -, hbare, hpoint, hp, hrows, rfl⟩
  · exact done_blank h (hlead.append hb)
  · have hdone := done_blank (done_bracket (done_blank h hlead) hp) hb
    simpa using hdone
  · have hderives := value_of_bare ((hjson.accepts value).1 (by simp [hpoint])) hbare
    have hrest : s.phase = .opened ∨ s.phase = .comma := by
      cases hs : s.phase with
      | opened => exact Or.inl rfl
      | comma => exact Or.inr rfl
      | before => exact absurd hs hphase.1
      | closed => exact absurd hs hphase.2
      | ended => exact absurd hs hp
    have hne : value ++ (b' ++ mark) ≠ [] := by
      obtain ⟨c, rest, hvalue, -⟩ := hderives.head
      simp [hvalue]
    rw [hpos hne]
    have hdone := done_blank (done_value h hlead hderives hb' hmark hpoint hrest hrows) hb
    simpa using hdone

/-- A line of the file. -/
theorem line_done (hjson : Decodes json) (h : Done json text s)
    (hline : s.line json raw text.length = .ok u) : Done json (text ++ raw) u := by
  obtain ⟨a, b, ha, hb, hraw, hbare⟩ := trim_split raw
  unfold Fast.line at hline
  by_cases hempty : trim raw = []
  · simp only [hempty, if_true] at hline
    cases hline
    rw [hempty, List.nil_append] at hraw
    rw [hraw]
    exact done_blank h (ha.append hb)
  simp only [hempty, if_false, bind_eq_ok, require_eq_ok] at hline
  obtain ⟨_, hopen, hline⟩ := hline
  have hat : index raw (trim raw) = a.length := by
    have hindex := @index_eq (trim raw) a b ha hbare hempty
    rwa [← hraw] at hindex
  by_cases hbefore : s.phase = .before
  · simp only [hbefore, if_true, bind_eq_ok, require_eq_ok] at hline
    obtain ⟨_, hhead, hline⟩ := hline
    have hbracket : trim raw = '[' :: (trim raw).tail := by
      cases ht : trim raw with
      | nil => exact absurd ht hempty
      | cons c rest =>
        rw [ht] at hhead
        obtain rfl := Option.some.inj hhead
        rfl
    obtain ⟨a', b', ha', hb', hrest, hbare'⟩ := trim_split (trim raw).tail
    -- behind the bracket
    have hopened : Done json (text ++ (a ++ ['['])) { s with phase := .opened } := by
      cases h with
      | before hw _ hvisits hrows =>
        have hnoted : Noted json ((text ++ a).length + 1) [] { s with phase := .opened } :=
          ⟨by simp [hvisits, places, seen], by simp [hvisits], by simp [hrows], by simp⟩
        have hdone := Done.between (hw.append ha) (by simp) (by simp [Blank] : Blank []) hnoted rfl
        simpa [closed] using hdone
      | between _ _ _ _ hp =>
        rw [hbefore] at hp
        split at hp <;> cases hp
      | ended _ _ _ _ hp | closed _ _ hp =>
        rw [hbefore] at hp
        cases hp
    have hdone := done_blank (row_done hjson hopened ha' hb' hbare' (by simp) hline ?_) hb
    · have hshape :
        text ++ raw = text ++ (a ++ ['[']) ++ (a' ++ (trim (trim raw).tail ++ b')) ++ b := by
        rw [← hrest]
        conv_lhs => rw [hraw, hbracket]
        simp
      rw [hshape]
      exact hdone
    · intro hne
      have hat' : index (trim raw).tail (trim (trim raw).tail) = a'.length := by
        have hindex := @index_eq (trim (trim raw).tail) a' b' ha' hbare' hne
        rwa [← hrest] at hindex
      rw [if_neg hne, hat, hat']
      simp only [List.length_append, List.length_singleton]
      omega
  · rw [if_neg hbefore] at hline
    have hdone := row_done hjson h ha hb hbare ⟨hbefore, hopen⟩ hline fun _ => by rw [hat]
    rw [← hraw] at hdone
    exact hdone

/-- A line changes neither the place in the file nor what is pending. -/
theorem row_kept (h : s.row json text position = .ok u) (ht : Bare text) :
    u.offset = s.offset ∧ u.lineStart = s.lineStart := by
  rcases row_ok ht h with ⟨-, rfl⟩ | ⟨-, -, rfl⟩ | ⟨_, _, _, _, _, -, -, -, -, -, -, -, -, rfl⟩ <;>
    exact ⟨rfl, rfl⟩

theorem line_kept (h : s.line json raw position = .ok u) :
    u.offset = s.offset ∧ u.lineStart = s.lineStart := by
  obtain ⟨-, -, -, -, -, hbare⟩ := trim_split raw
  unfold Fast.line at h
  by_cases hempty : trim raw = []
  · simp only [hempty, if_true] at h
    cases h
    exact ⟨rfl, rfl⟩
  simp only [hempty, if_false, bind_eq_ok] at h
  obtain ⟨_, -, h⟩ := h
  by_cases hbefore : s.phase = .before
  · simp only [hbefore, if_true, bind_eq_ok] at h
    obtain ⟨_, -, h⟩ := h
    obtain ⟨-, -, -, -, -, hbare'⟩ := trim_split (trim raw).tail
    have hkept := row_kept h hbare'
    exact hkept
  · rw [if_neg hbefore] at h
    exact row_kept h hbare

/-- Behind a text, with the last line of it pending. -/
def Lines (json : Text → Option α) (text : Text) (s : Fast α) : Prop :=
  ∃ whole, text = whole ++ s.pending ∧ s.lineStart = whole.length ∧ Done json whole s

theorem parts_lines (hjson : Decodes json) {p : Text} {ps : List Text} (h : Lines json text s)
    (hparts : s.parts json (p :: ps) = .ok u) :
    Lines json (text ++ List.intercalate ['\n'] (p :: ps)) u ∧ u.offset = s.offset := by
  induction ps generalizing s text p with
  | nil =>
    obtain ⟨whole, rfl, hstart, hdone⟩ := h
    simp only [Fast.parts, bind_eq_ok, require_eq_ok, pure_eq_ok] at hparts
    obtain ⟨_, -, rfl⟩ := hparts
    exact ⟨⟨whole, by simp, hstart, hdone.congr rfl rfl rfl⟩, rfl⟩
  | cons q ps ih =>
    obtain ⟨whole, rfl, hstart, hdone⟩ := h
    simp only [Fast.parts, bind_eq_ok, require_eq_ok] at hparts
    obtain ⟨_, -, v, hline, hparts⟩ := hparts
    obtain ⟨hoff, hlineStart⟩ := line_kept hline
    rw [hstart] at hline
    -- the line break is white space behind the line
    have hbehind := done_blank (line_done hjson hdone hline) (b := ['\n'])
        (by simp [Blank, isBlank])
    have hlines : Lines json (whole ++ (s.pending ++ p) ++ ['\n'])
        { v with lineStart := v.lineStart + ((s.pending ++ p).length + 1), pending := [] } := by
      refine ⟨_, (List.append_nil _).symm, ?_, hbehind.congr rfl rfl rfl⟩
      rw [hlineStart, hstart]
      simp only [List.length_append, List.length_singleton]
      omega
    obtain ⟨hnext, hoff'⟩ := ih hlines hparts
    refine ⟨?_, hoff'.trans hoff⟩
    have hshape : whole ++ s.pending ++ List.intercalate ['\n'] (p :: q :: ps) =
        whole ++ (s.pending ++ p) ++ ['\n'] ++ List.intercalate ['\n'] (q :: ps) := by
      simp [List.intercalate_cons_cons]
    rw [hshape]
    exact hnext

/-- What the fast scan accepts is an array, and its visits are the elements. -/
theorem run_lines (hjson : Decodes json) {chunks : List Text} (hne : ∀ chunk ∈ chunks, chunk ≠ [])
    (h : Lines json text s) (hoff : s.offset = text.length) (hmax : text.length ≤ maximum)
    (hrun : s.run json (chunks.map some) = .ok (visits, n)) :
    ∃ (a : Listing) (t : Fast α), a.Ok ∧ a.text = text ++ chunks.flatten ∧
      Noted json (a.before.length + 1) a.items t ∧ t.visits = visits ∧ n = a.text.length ∧
      n ≤ maximum := by
  induction chunks generalizing s text with
  | nil =>
    simp only [List.map_nil, Fast.run, bind_eq_ok, require_eq_ok, pure_eq_ok, Prod.mk.injEq] at hrun
    obtain ⟨t, hline, _, hphase, hvisits, hn⟩ := hrun
    obtain ⟨hoff', -⟩ := line_kept hline
    obtain ⟨whole, rfl, hstart, hdone⟩ := h
    rw [hstart] at hline
    have hall := line_done hjson hdone hline
    have hn : n = (whole ++ s.pending).length := by rw [← hn, hoff', hoff]
    simp only [List.flatten_nil, List.append_nil]
    generalize whole ++ s.pending = final at hall hn hmax
    cases hall with
    | before _ hp => simp [hp] at hphase
    | between _ _ _ _ hp =>
      rw [hphase] at hp
      split at hp <;> cases hp
    | ended _ _ _ _ hp => simp [hp] at hphase
    | closed hok hnoted => exact ⟨_, t, hok, rfl, hnoted, hvisits, hn, hn ▸ hmax⟩
  | cons chunk chunks ih =>
    obtain ⟨hchunk, hrest⟩ := List.forall_mem_cons.1 hne
    obtain ⟨c, chunk, rfl⟩ := List.exists_cons_of_ne_nil hchunk
    simp only [List.map_cons, Fast.run, bind_eq_ok, require_eq_ok] at hrun
    obtain ⟨_, hle, u, hparts, hrun⟩ := hrun
    have hjoin : List.intercalate ['\n'] ((c :: chunk).splitOn '\n') = c :: chunk :=
      List.intercalate_splitOn '\n'
    obtain ⟨p, ps, hsplit⟩ := List.exists_cons_of_ne_nil (List.splitOn_ne_nil '\n' (c :: chunk))
    rw [hsplit] at hparts hjoin
    have hlines : Lines json text { s with offset := s.offset + (c :: chunk).length } := by
      obtain ⟨whole, htext, hstart, hdone⟩ := h
      exact ⟨whole, htext, hstart, hdone.congr rfl rfl rfl⟩
    obtain ⟨hnext, hoff'⟩ := parts_lines hjson hlines hparts
    rw [hjoin] at hnext
    have hlen : u.offset = (text ++ c :: chunk).length := by
      rw [hoff', List.length_append, ← hoff]
    have hle' : (text ++ c :: chunk).length ≤ maximum := by
      rw [List.length_append, ← hoff]
      exact hle
    obtain ⟨a, t, hok, htext, hfinal⟩ := ih hrest hnext hlen hle' hrun
    exact ⟨a, t, hok, by rw [htext]; simp, hfinal⟩

theorem fast_listing (hjson : Decodes json) {chunks : List Text}
    (hne : ∀ chunk ∈ chunks, chunk ≠ [])
    (h : scanRowsFast json (chunks.map some) = .ok (visits, n)) :
    ∃ (a : Listing) (t : Fast α), a.Ok ∧ a.text = chunks.flatten ∧
      Noted json (a.before.length + 1) a.items t ∧ t.visits = visits ∧ n = a.text.length ∧
      n ≤ maximum := by
  have hinit : Lines json [] ({} : Fast α) :=
    ⟨[], rfl, rfl, .before (by simp [Blank]) rfl rfl rfl⟩
  have := run_lines hjson hne hinit rfl (Nat.zero_le _) h
  simpa using this

end Foxhole.History
