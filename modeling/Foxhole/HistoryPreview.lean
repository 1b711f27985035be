import Foxhole.HistoryIndex
import Foxhole.Lib.Json

/-! The samples of the history that a phone is shown: preview_json, indexed_preview and
read_preview of history.uc. -/
namespace Foxhole.History
open Check Json

/-- The codes the source dies with, and the exceptions of the interpreter itself. -/
inductive PreviewError where
  | historyPreviewInvalid | historyReadFailed | notJson | notAnObject
deriving DecidableEq

def previewMaxBytes : ℕ := 240000

def previewMaxPoints : ℕ := 512

/-- `json()` of a row and of an array, `sprintf('%J')` of a row, the `t` of an object that has a
whole number for one, and `point.cpu = null`. -/
structure Values (α : Type) where
  json : Text → Option α
  array : Text → Option (List α)
  print : α → Text
  time : α → Option ℤ
  withoutCpu : α → α

/-- The row that stands for round `i` of `count`. -/
def previewAt (n count i : ℕ) : ℕ := if count = 1 then 0 else i * (n - 1) / (count - 1)

/-- The rounds `for (let i …)`, with what has been pushed and counted before them. -/
def previewParts (row : ℕ → Except PreviewError Text) (n count : ℕ) :
    List ℕ → List Text → ℕ → Except PreviewError (List Text)
  | [], parts, _ => .ok parts
  | i :: is, parts, bytes => do
    let part ← row (previewAt n count i)
    let bytes := bytes + (part.length + if 0 < i then 1 else 0)
    if bytes > previewMaxBytes then .ok parts
    else previewParts row n count is (parts ++ [part]) bytes

/-- `'[' + join(',', parts) + ']'` -/
def previewText (parts : List Text) : Text := '[' :: ([','].intercalate parts ++ [']'])

/-- `while (count > 0)`: half as many rows when these are too long. -/
def previewLoop (row : ℕ → Except PreviewError Text) (n count : ℕ) : Except PreviewError Text :=
  if 0 < count then do
    let parts ← previewParts row n count (List.range count) [] 2
    if parts.length = count then .ok (previewText parts)
    else if count ≤ 2 then .ok (previewText [])
    else previewLoop row n (max 2 (count / 2))
  else .ok (previewText [])
termination_by count

variable {α : Type}

def pointRow (v : Values α) (points : List α) (place : ℕ) : Text :=
  (points[place]?.map v.print).getD "null".toList

def previewJson (v : Values α) (points : Field (List α)) : Except PreviewError Text :=
  match points with
  | .value points =>
    previewLoop (fun place => .ok (pointRow v points place)) points.length
      (min previewMaxPoints points.length)
  | _ => throw .historyPreviewInvalid

/-- What is open for reading: seeking to a place and reading so many bytes there, where neither
fails. -/
abbrev Opened := ℕ → ℕ → Option Text

def entryRaw (v : Values α) (source : Option Opened) (entry : Entry) : Except PreviewError Text :=
  match entry.source with
  | .raw text => .ok text
  | .range offset bytes legacy =>
    match source.bind fun read => read offset bytes with
    | none => throw .historyReadFailed
    | some raw => do
      require (raw.length = bytes) .historyReadFailed
      if legacy then
        match v.json raw with
        | some point => return v.print (v.withoutCpu point)
        | none => throw .notJson
      else return raw

def entryRow (v : Values α) (source : Option Opened) (entries : List Entry) (place : ℕ) :
    Except PreviewError Text :=
  match entries[place]? with
  | some entry => entryRaw v source entry
  | none => throw .notAnObject

def indexedPreview (v : Values α) (source : Option Opened) (entries : List Entry) :
    Except PreviewError Text :=
  previewLoop (entryRow v source entries) entries.length (min previewMaxPoints entries.length)

/-- The loop of `read_preview` over the points. -/
def inOrder (time : α → Option ℤ) : ℤ → List α → Bool
  | _, [] => true
  | previous, point :: points =>
    match time point with
    | some t => previous ≤ t && inOrder time t points
    | none => false

/-- `raw` is what `store.read` finds, which fails on more than it may read. -/
def readPreview (v : Values α) (raw : Option Text) : List α :=
  match raw with
  | none => []
  | some raw =>
    if raw.length > previewMaxBytes || raw = [] then []
    else
      match v.array raw with
      | none => []
      | some points =>
        if points.length > previewMaxPoints then []
        else if inOrder v.time (-1) points then points else []


/-! Which rows are chosen. -/

variable {row row' : ℕ → Except PreviewError Text} {n count i j : ℕ} {is : List ℕ}
  {parts texts result : List Text} {out : Text}

theorem previewAt_zero : previewAt n count 0 = 0 := by
  unfold previewAt
  split <;> simp

theorem previewAt_last (h : 2 ≤ count) : previewAt n count (count - 1) = n - 1 := by
  have hpos : 0 < count - 1 := by omega
  rw [previewAt, if_neg (by omega), Nat.mul_div_cancel_left _ hpos]

/-- As long as there are no more rounds than rows every round has a row of its own. -/
theorem previewAt_lt (hn : count ≤ n) (hij : i < j) (hj : j < count) :
    previewAt n count i < previewAt n count j := by
  have hcount : ¬ count = 1 := by omega
  have hpos : 0 < count - 1 := by omega
  have hstep : i * (n - 1) + (count - 1) ≤ j * (n - 1) :=
    calc i * (n - 1) + (count - 1) ≤ i * (n - 1) + (n - 1) := by omega
      _ = (i + 1) * (n - 1) := (Nat.succ_mul i (n - 1)).symm
      _ ≤ j * (n - 1) := Nat.mul_le_mul_right _ hij
  rw [previewAt, previewAt, if_neg hcount, if_neg hcount, Nat.lt_iff_add_one_le,
    ← Nat.add_div_right _ hpos]
  exact Nat.div_le_div_right hstep

theorem previewAt_within (hn : count ≤ n) (hi : i < count) : previewAt n count i < n := by
  by_cases hlast : i = count - 1
  · by_cases hcount : count = 1
    · rw [previewAt, if_pos hcount]
      omega
    · rw [hlast, previewAt_last (by omega)]
      omega
  · have hlt := previewAt_lt hn (show i < count - 1 by omega) (by omega)
    rw [previewAt_last (by omega)] at hlt
    omega

/-- The rows of a pass. -/
def chosen (n count : ℕ) : List ℕ := (List.range count).map (previewAt n count)

theorem chosen_increasing (hn : count ≤ n) : (chosen n count).Pairwise (· < ·) := by
  rw [chosen, List.pairwise_map]
  refine List.pairwise_lt_range.imp_of_mem fun {i j} _ hj hij => ?_
  exact previewAt_lt hn hij (List.mem_range.1 hj)

theorem chosen_within (hn : count ≤ n) : ∀ k ∈ chosen n count, k < n := by
  intro k hk
  obtain ⟨i, hi, rfl⟩ := List.mem_map.1 hk
  exact previewAt_within hn (List.mem_range.1 hi)

theorem chosen_ends (h : 2 ≤ count) : 0 ∈ chosen n count ∧ n - 1 ∈ chosen n count := by
  refine ⟨List.mem_map.2 ⟨0, List.mem_range.2 (by omega), previewAt_zero⟩, ?_⟩
  exact List.mem_map.2 ⟨count - 1, List.mem_range.2 (by omega), previewAt_last h⟩

/-! The budget of a pass. -/

theorem intercalate_concat (parts : List Text) (part : Text) :
    ([','].intercalate (parts ++ [part])).length =
      ([','].intercalate parts).length + (part.length + if 0 < parts.length then 1 else 0) := by
  induction parts with
  | nil => simp
  | cons first parts ih =>
    have hpos : ∀ (text : Text) (texts : List Text), 0 < (text :: texts).length := fun text texts =>
      Nat.succ_pos texts.length
    rw [if_pos (hpos first parts)]
    cases parts with
    | nil =>
      simp only [List.cons_append, List.nil_append, List.intercalate_cons_cons,
        List.intercalate_singleton, List.length_append, List.length_cons, List.length_nil]
      omega
    | cons next parts =>
      rw [if_pos (hpos next parts)] at ih
      simp only [List.cons_append, List.intercalate_cons_cons, List.length_append, List.length_cons,
        List.length_nil] at ih ⊢
      omega

/-- A pass is broken off, or all its rows fit together. -/
theorem previewParts_ok {k : ℕ} (h : previewParts row n count (List.range' parts.length k) parts
    (2 + ([','].intercalate parts).length) = .ok result) : result.length < parts.length + k ∨
      ∃ texts, List.Forall₂ (fun i text => row (previewAt n count i) = .ok text)
        (List.range' parts.length k) texts ∧ result = parts ++ texts ∧
        (0 < k → (previewText result).length ≤ previewMaxBytes) := by
  induction k generalizing parts with
  | zero =>
    cases h
    exact Or.inr ⟨[], .nil, (List.append_nil _).symm, by simp⟩
  | succ k ih =>
    rw [List.range'_succ] at h ⊢
    simp only [previewParts, bind_eq_ok] at h
    obtain ⟨part, hpart, h⟩ := h
    have hlen := intercalate_concat parts part
    have hsum : 2 + ([','].intercalate parts).length +
        (part.length + if 0 < parts.length then 1 else 0) =
          2 + ([','].intercalate (parts ++ [part])).length := by omega
    rw [hsum] at h
    split at h
    · cases h
      exact Or.inl (by omega)
    · next hfits =>
      have hnext : parts.length + 1 = (parts ++ [part]).length := by simp
      rw [hnext] at h ⊢
      rcases ih h with hshort | ⟨texts, hall, rfl, hbytes⟩
      · left
        omega
      · right
        refine ⟨part :: texts, .cons hpart hall, by simp, fun _ => ?_⟩
        cases k with
        | zero =>
          cases hall
          simp only [previewText, List.append_nil, List.length_cons, List.length_append,
            List.length_nil] at hfits ⊢
          omega
        | succ k => exact hbytes (Nat.succ_pos k)


/-! What comes out of the loop. -/

/-- The text is the array of these rows. -/
structure Samples (row : ℕ → Except PreviewError Text) (n : ℕ) (indices : List ℕ)
    (texts : List Text)
    (out : Text) : Prop where
  nonempty : indices ≠ []
  few : indices.length ≤ previewMaxPoints
  increasing : indices.Pairwise (· < ·)
  within : ∀ k ∈ indices, k < n
  ends : 2 ≤ indices.length → 0 ∈ indices ∧ n - 1 ∈ indices
  rows : List.Forall₂ (fun k text => row k = .ok text) indices texts
  text : out = previewText texts
  bytes : out.length ≤ previewMaxBytes

theorem samples_of_parts (hn : count ≤ n) (hmax : count ≤ previewMaxPoints) (hpos : 0 < count)
    (h : previewParts row n count (List.range count) [] 2 = .ok parts)
    (hall : parts.length = count) :
    Samples row n (chosen n count) parts (previewText parts) := by
  rw [List.range_eq_range'] at h
  have hrun : previewParts row n count (List.range' ([] : List Text).length count) []
      (2 + ([','].intercalate ([] : List Text)).length) = .ok parts := h
  rcases previewParts_ok hrun with hshort | ⟨texts, hrows, hparts, hbytes⟩
  · simp only [List.length_nil] at hshort
    omega
  obtain rfl : parts = texts := hparts
  refine ⟨?_, ?_, chosen_increasing hn, chosen_within hn, fun h => chosen_ends ?_, ?_, rfl,
    hbytes hpos⟩
  · simp [chosen, hpos.ne']
  · simpa [chosen] using hmax
  · simpa [chosen] using h
  · rw [chosen, List.range_eq_range', List.forall₂_map_left_iff]
    exact hrows

/-- The rows are halved until they fit or only two are left. -/
theorem previewLoop_ok (hn : count ≤ n) (hmax : count ≤ previewMaxPoints)
    (h : previewLoop row n count = .ok out) :
    out = previewText [] ∨ ∃ indices texts, Samples row n indices texts out := by
  induction count using Nat.strong_induction_on with
  | _ count ih =>
    rw [previewLoop] at h
    split at h
    · next hpos =>
      simp only [bind_eq_ok] at h
      obtain ⟨parts, hparts, h⟩ := h
      split at h
      · next hall =>
        cases h
        exact Or.inr ⟨_, _, samples_of_parts hn hmax hpos hparts hall⟩
      · split at h
        · cases h
          exact Or.inl rfl
        · have hless : max 2 (count / 2) < count := by omega
          exact ih _ hless (by omega) (by omega) h
    · cases h
      exact Or.inl rfl

theorem previewParts_congr (h : ∀ i ∈ is, row (previewAt n count i) = row' (previewAt n count i))
    (bytes : ℕ) :
    previewParts row n count is parts bytes = previewParts row' n count is parts bytes := by
  induction is generalizing parts bytes with
  | nil => rfl
  | cons i is ih =>
    simp only [previewParts, h i List.mem_cons_self]
    refine bind_congr fun part => ?_
    rw [ih fun j hj => h j (List.mem_cons_of_mem _ hj)]

/-- Only the rows there are matter to the loop. -/
theorem previewLoop_congr (hn : count ≤ n) (h : ∀ k < n, row k = row' k) :
    previewLoop row n count = previewLoop row' n count := by
  induction count using Nat.strong_induction_on with
  | _ count ih =>
    have hsame : previewParts row n count (List.range count) [] 2 =
        previewParts row' n count (List.range count) [] 2 :=
      previewParts_congr (fun i hi => h _ (previewAt_within hn (List.mem_range.1 hi))) 2
    rw [previewLoop.eq_def row n count, previewLoop.eq_def row' n count, hsame]
    split
    · refine bind_congr fun parts => ?_
      split
      · rfl
      · split
        · rfl
        · exact ih _ (by omega) (by omega)
    · rfl

theorem previewParts_returns (text : ℕ → Text) (bytes : ℕ) :
    ∃ result, previewParts (fun k => .ok (text k)) n count is parts bytes = .ok result := by
  induction is generalizing parts bytes with
  | nil => exact ⟨parts, rfl⟩
  | cons i is ih =>
    by_cases hbytes : bytes + ((text (previewAt n count i)).length + if 0 < i then 1 else 0) >
      previewMaxBytes
    · exact ⟨parts, bind_eq_ok.2 ⟨_, rfl, if_pos hbytes⟩⟩
    · obtain ⟨result, hresult⟩ := @ih (parts ++ [text (previewAt n count i)])
        (bytes + ((text (previewAt n count i)).length + if 0 < i then 1 else 0))
      exact ⟨result, bind_eq_ok.2 ⟨_, rfl, (if_neg hbytes).trans hresult⟩⟩

/-- The loop ends, and returns where every row can be read. -/
theorem previewLoop_returns (text : ℕ → Text) :
    ∃ out, previewLoop (fun k => .ok (text k)) n count = .ok out := by
  induction count using Nat.strong_induction_on with
  | _ count ih =>
    rw [previewLoop]
    by_cases hpos : 0 < count
    · rw [if_pos hpos]
      obtain ⟨parts, hparts⟩ := @previewParts_returns n count (List.range count) [] text 2
      rw [hparts]
      by_cases hall : parts.length = count
      · exact ⟨_, if_pos hall⟩
      · by_cases htwo : count ≤ 2
        · exact ⟨_, (if_neg hall).trans (if_pos htwo)⟩
        · obtain ⟨out, hout⟩ := ih (max 2 (count / 2)) (by omega)
          exact ⟨out, (if_neg hall).trans ((if_neg htwo).trans hout)⟩
    · exact ⟨_, if_neg hpos⟩

/-! The array is JSON, and it is read back. -/

def plainItem (text : Text) : Item := ⟨[], text, []⟩

theorem joined_plain : joined (texts.map plainItem) = [','].intercalate texts := by
  induction texts with
  | nil => rfl
  | cons first texts ih =>
    cases texts with
    | nil => simp [joined, plainItem, Item.text]
    | cons next texts =>
      rw [List.intercalate_cons_cons, ← ih]
      simp [joined, plainItem, Item.text]

theorem derives_previewText (h : ∀ text ∈ texts, Derives .value text) :
    Derives .value (previewText texts) := by
  have hblank : Blank [] := by
    intro c hc
    cases hc
  by_cases hne : texts = []
  · subst hne
    exact .emptyArray hblank
  · refine .array (elements_iff.2 ⟨texts.map plainItem, by simpa using hne, ?_, joined_plain⟩)
    intro item hitem
    obtain ⟨text, htext, rfl⟩ := List.mem_map.1 hitem
    exact ⟨hblank, h text htext, hblank⟩

/-- `json()` takes what `sprintf('%J')` printed: a row is a JSON value, and rows joined to an array
are read as an array of as many rows with their times. -/
structure Values.Documented (v : Values α) : Prop where
  printed : ∀ point, Derives .value (v.print point)
  array : ∀ points : List α, ∃ rows, v.array (previewText (points.map v.print)) = some rows ∧
    rows.map v.time = points.map v.time

/-- The loop of `read_preview` passes rows whose times do not go back. -/
theorem inOrder_iff {time : α → Option ℤ} {previous : ℤ} {points : List α} :
    inOrder time previous points = true ↔
      ∃ times : List ℤ, points.map time = times.map some ∧ (previous :: times).Pairwise
        (· ≤ ·) := by
  induction points generalizing previous with
  | nil => exact ⟨fun _ => ⟨[], rfl, by simp⟩, fun _ => rfl⟩
  | cons point points ih =>
    cases ht : time point with
    | none =>
      simp only [inOrder, ht, Bool.false_eq_true, false_iff]
      rintro ⟨_ | ⟨t, times⟩, heq, -⟩
      · cases heq
      · simp [ht] at heq
    | some t =>
      simp only [inOrder, ht, Bool.and_eq_true, decide_eq_true_eq, ih]
      constructor
      · rintro ⟨hle, times, heq, hpair⟩
        refine ⟨t :: times, by simp [ht, heq], List.pairwise_cons.2 ⟨fun s hs => ?_, hpair⟩⟩
        rcases List.mem_cons.1 hs with rfl | hs
        · exact hle
        · exact hle.trans ((List.pairwise_cons.1 hpair).1 s hs)
      · rintro ⟨_ | ⟨s, times⟩, heq, hpair⟩
        · cases heq
        · obtain ⟨rfl, htail⟩ : t = s ∧ points.map time = times.map some := by simpa [ht] using heq
          obtain ⟨hall, hpair⟩ := List.pairwise_cons.1 hpair
          exact ⟨hall t List.mem_cons_self, times, htail, hpair⟩

/-- The bytes of the row are what `%J` prints of the point; a row of an older measurement is printed
again without its cpu. -/
def Serialised (v : Values α) (source : Option Opened) (entry : Entry) (point : α) : Prop :=
  match entry.source with
  | .raw text => text = v.print point
  | .range offset bytes legacy =>
    ∃ raw, (source.bind fun read => read offset bytes) = some raw ∧ raw.length = bytes ∧
      if legacy then ∃ old, v.json raw = some old ∧ v.withoutCpu old = point
      else raw = v.print point

variable {v : Values α} {source : Option Opened} {entry : Entry} {entries : List Entry} {point : α}
  {points : List α} {indices : List ℕ} {times : List ℤ}

theorem entryRaw_serialised (h : Serialised v source entry point) :
    entryRaw v source entry = .ok (v.print point) := by
  unfold Serialised at h
  unfold entryRaw
  cases hs : entry.source with
  | raw text =>
    rw [hs] at h
    exact congrArg Except.ok h
  | range offset bytes legacy =>
    rw [hs] at h
    obtain ⟨raw, hread, hlen, h⟩ := h
    simp only [hread]
    refine bind_eq_ok.2 ⟨(), require_eq_ok.2 hlen, ?_⟩
    cases legacy with
    | true =>
      obtain ⟨old, hjson, rfl⟩ := h
      simp only [hjson]
      rfl
    | false => exact congrArg Except.ok h

theorem entryRow_serialised (h : List.Forall₂ (Serialised v source) entries points) (k : ℕ)
    (hk : k < entries.length) : entryRow v source entries k = .ok (pointRow v points k) := by
  obtain ⟨hlen, hget⟩ := List.forall₂_iff_get.1 h
  have hrow := entryRaw_serialised (hget k hk (hlen ▸ hk))
  simp only [entryRow, pointRow, List.getElem?_eq_getElem hk,
    List.getElem?_eq_getElem (hlen ▸ hk : k < points.length)]
  exact hrow

/-- The rows of a preview of points are printed points. -/
theorem Samples.picked (h : Samples (fun k => .ok (pointRow v points k)) points.length indices texts
    out) : ∃ picked : List α, texts = picked.map v.print ∧
      List.Forall₂ (fun k point => points[k]? = some point) indices picked := by
  have hwithin := h.within
  have hrows := h.rows
  clear h
  induction hrows with
  | nil => exact ⟨[], rfl, .nil⟩
  | @cons k text indices texts hrow _ ih =>
    obtain ⟨picked, rfl, hpicked⟩ := ih fun j hj => hwithin j (List.mem_cons_of_mem _ hj)
    have hk : k < points.length := hwithin k List.mem_cons_self
    have hget : points[k]? = some points[k] := List.getElem?_eq_getElem hk
    refine ⟨points[k] :: picked, ?_, .cons hget hpicked⟩
    have htext := Except.ok.inj hrow
    rw [pointRow, hget] at htext
    rw [List.map_cons, ← htext]
    rfl

/-- Their times are in order when those of all rows are. -/
theorem picked_times {picked : List α} (htimes : points.map v.time = times.map some)
    (hpos : ∀ t ∈ times, 0 ≤ t) (hsorted : times.Pairwise (· ≤ ·)) (hinc : indices.Pairwise (· < ·))
    (hpicked : List.Forall₂ (fun k point => points[k]? = some point) indices picked) :
    ∃ ts : List ℤ, picked.map v.time = ts.map some ∧ (-1 :: ts).Pairwise (· ≤ ·) := by
  have htime {k : ℕ} {point : α} (h : points[k]? = some point) :
      ∃ t, v.time point = some t ∧ times[k]? = some t := by
    have hk := congrArg (fun l => l[k]?) htimes
    simp only [List.getElem?_map, h, Option.map_some] at hk
    cases ht : times[k]? with
    | none =>
      rw [ht] at hk
      cases hk
    | some t =>
      rw [ht] at hk
      exact ⟨t, Option.some.inj hk, rfl⟩
  have hgo : ∃ ts : List ℤ, picked.map v.time = ts.map some ∧
      List.Forall₂ (fun k t => times[k]? = some t) indices ts := by
    clear hinc
    induction hpicked with
    | nil => exact ⟨[], rfl, .nil⟩
    | cons hrow _ ih =>
      obtain ⟨ts, hts, hall⟩ := ih
      obtain ⟨t, ht, hk⟩ := htime hrow
      exact ⟨t :: ts, by simp [ht, hts], .cons hk hall⟩
  obtain ⟨ts, hts, hall⟩ := hgo
  refine ⟨ts, hts, List.pairwise_cons.2 ⟨fun t ht => ?_, ?_⟩⟩
  · obtain ⟨i, hi, rfl⟩ := List.mem_iff_getElem.1 ht
    obtain ⟨hlen, hget⟩ := List.forall₂_iff_get.1 hall
    have hmem := List.mem_of_getElem? (hget i (hlen ▸ hi) hi)
    have hnonneg : 0 ≤ ts[i] := hpos _ hmem
    omega
  · clear hts hpicked
    induction hall with
    | nil => exact .nil
    | @cons k t indices ts hk hall ih =>
      obtain ⟨hless, hinc⟩ := List.pairwise_cons.1 hinc
      refine List.pairwise_cons.2 ⟨fun s hs => ?_, ih hinc⟩
      obtain ⟨i, hi, rfl⟩ := List.mem_iff_getElem.1 hs
      obtain ⟨hlen, hget⟩ := List.forall₂_iff_get.1 hall
      have hi' : i < indices.length := hlen ▸ hi
      have hlt : k < indices[i] := hless _ (List.getElem_mem hi')
      obtain ⟨hklt, rfl⟩ := List.getElem?_eq_some_iff.1 hk
      obtain ⟨hjlt, hj⟩ := List.getElem?_eq_some_iff.1 (hget i hi' hi)
      have hle := List.pairwise_iff_getElem.1 hsorted k indices[i] hklt hjlt hlt
      exact hle.trans (le_of_eq hj)

/-- What is printed for rows in order passes the checks of `read_preview`. -/
theorem readPreview_samples (hv : v.Documented) {picked : List α} {ts : List ℤ}
    (hbytes : (previewText (picked.map v.print)).length ≤ previewMaxBytes)
    (hfew : picked.length ≤ previewMaxPoints) (hts : picked.map v.time = ts.map some)
    (hpair : (-1 :: ts).Pairwise (· ≤ ·)) :
    v.array (previewText (picked.map v.print)) =
      some (readPreview v (some (previewText (picked.map v.print)))) := by
  obtain ⟨rows, harray, hrows⟩ := hv.array picked
  have hlen : rows.length = picked.length := by simpa using congrArg List.length hrows
  have hsmall : ¬ (previewText (picked.map v.print)).length > previewMaxBytes := by omega
  have hcount : ¬ rows.length > previewMaxPoints := by omega
  have horder : inOrder v.time (-1) rows = true := inOrder_iff.2 ⟨ts, hrows.trans hts, hpair⟩
  have hne : previewText (picked.map v.print) ≠ [] := List.cons_ne_nil _ _
  simp [readPreview, hsmall, hne, harray, hcount, horder]


/-- The preview that is written from the index is the one that is made of the parsed points. It has
samples in the order of the rows with both ends, or none, and `read_preview` takes it. -/
theorem previews_agree (v : Values α) (hv : v.Documented) :
    (∀ source entries points, List.Forall₂ (Serialised v source) entries points →
      indexedPreview v source entries = previewJson v (.value points)) ∧
    (∀ source entries out, indexedPreview v source entries = .ok out → out = previewText [] ∨
      ∃ indices texts, Samples (entryRow v source entries) entries.length indices texts out) ∧
    ∀ points : List α, ∃ out, previewJson v (.value points) = .ok out ∧ Derives .value out ∧
      (out = previewText [] ∨ ∃ indices texts,
        Samples (fun k => .ok (pointRow v points k)) points.length indices texts out) ∧
      ∀ times : List ℤ, points.map v.time = times.map some → (∀ t ∈ times, 0 ≤ t) →
        times.Pairwise (· ≤ ·) → v.array out = some (readPreview v (some out)) := by
  refine ⟨fun source entries points h => ?_, fun source entries out h => ?_, fun points => ?_⟩
  · have hlen := h.length_eq
    rw [indexedPreview, previewJson, ← hlen]
    exact previewLoop_congr (Nat.min_le_right _ _) (entryRow_serialised h)
  · exact previewLoop_ok (Nat.min_le_right _ _) (Nat.min_le_left _ _) h
  · obtain ⟨out, hout⟩ := @previewLoop_returns points.length (min previewMaxPoints points.length)
      (pointRow v points)
    have hnone : Derives .value (previewText []) := derives_previewText (by simp)
    refine ⟨out, hout, ?_⟩
    rcases previewLoop_ok (Nat.min_le_right _ _) (Nat.min_le_left _ _) hout with
      rfl | ⟨indices, texts, hs⟩
    · refine ⟨hnone, Or.inl rfl, fun times _ _ _ => ?_⟩
      have hbytes : (previewText ([] : List Text)).length ≤ previewMaxBytes := by decide
      exact @readPreview_samples _ v hv [] [] hbytes (Nat.zero_le _) rfl (by simp)
    · refine ⟨?_, Or.inr ⟨indices, texts, hs⟩, fun times htimes hpos hsorted => ?_⟩
      · obtain ⟨picked, rfl, -⟩ := hs.picked
        rw [hs.text]
        refine derives_previewText fun text htext => ?_
        obtain ⟨point, -, rfl⟩ := List.mem_map.1 htext
        exact hv.printed point
      · obtain ⟨picked, rfl, hpicked⟩ := hs.picked
        obtain ⟨ts, hts, hpair⟩ := picked_times htimes hpos hsorted hs.increasing hpicked
        have hbytes := hs.bytes
        rw [hs.text] at hbytes ⊢
        exact readPreview_samples hv hbytes (hpicked.length_eq ▸ hs.few) hts hpair


/-- Rows that hold nothing but a time of one digit. -/
def digitRow (t : Fin 10) : Text :=
  ['\x7b', '"', 't', '"', ':', Char.ofNat (48 + t.val), '\x7d']

def readRow (text : Text) : Option (Fin 10) :=
  (List.finRange 10).find? fun t => digitRow t = text

def readRows (text : Text) : Option (List (Fin 10)) := do
  let rest ← text.dropPrefix? ['[']
  let body ← rest.dropSuffix? [']']
  if body = [] then some [] else (body.splitOn ',').mapM readRow

def digitValues : Values (Fin 10) where
  json := readRow
  array := readRows
  print := digitRow
  time t := some t.val
  withoutCpu := id

theorem readRow_digitRow (t : Fin 10) : readRow (digitRow t) = some t := by
  revert t
  decide

theorem digitRow_value (t : Fin 10) : Derives .value (digitRow t) := by
  have hblank : Blank [] := by
    intro c hc
    cases hc
  have hdigit : Derives .value [Char.ofNat (48 + t.val)] := by
    by_cases ht : t = 0
    · subst ht
      exact .number ⟨[], ['0'], [], [], rfl, Or.inl rfl, Or.inl rfl, Or.inl rfl, Or.inl rfl⟩
    · refine one_digit ?_ ?_ <;> revert t <;> decide
  have hname : Body ['t'] := .plain (by decide) (by decide) (by decide) .nil
  exact .object (.member hblank hname hblank (.element hblank hdigit hblank))

theorem readRows_digits (points : List (Fin 10)) :
    readRows (previewText (points.map digitRow)) = some points := by
  have hcomma : ∀ t : Fin 10, ',' ∉ digitRow t := by decide
  have hopen : (previewText (points.map digitRow)).dropPrefix? ['['] =
      some ([','].intercalate (points.map digitRow) ++ [']']) := by
    simp [List.dropPrefix?_eq_some_iff, previewText]
  have hsuffix : ([','].intercalate (points.map digitRow) ++ [']']).dropSuffix? [']'] =
      some ([','].intercalate (points.map digitRow)) := by
    simp [List.dropSuffix?_eq_some_iff]
  simp only [readRows, hopen, hsuffix, Option.bind_eq_bind, Option.bind_some]
  cases points with
  | nil => rfl
  | cons t points =>
    have hsplit : ([','].intercalate ((t :: points).map digitRow)).splitOn ',' =
        (t :: points).map digitRow := by
      refine List.splitOn_intercalate ',' ?_ (by simp)
      intro row hrow
      obtain ⟨t, -, rfl⟩ := List.mem_map.1 hrow
      exact hcomma t
    have hne : [','].intercalate ((t :: points).map digitRow) ≠ [] := by
      cases points <;> simp [List.intercalate_cons_cons, digitRow]
    have hall : ∀ points : List (Fin 10), (points.map digitRow).mapM readRow = some points := by
      intro points
      induction points with
      | nil => rfl
      | cons t points ih => simp [List.mapM_cons, readRow_digitRow, ih]
    rw [if_neg hne, hsplit, hall]

theorem digitValues_documented : digitValues.Documented where
  printed := digitRow_value
  array points := ⟨points, readRows_digits points, rfl⟩

def sampleHistory : Text :=
  previewText ([1, 4].map digitRow)

/-- A file that is open for reading. -/
def opened (text : Text) : Opened := fun offset bytes => some ((text.drop offset).take bytes)

theorem previews_agree_sample :
    indexedPreview digitValues (some (opened sampleHistory))
        [⟨1, 0, .range 1 7 false⟩, ⟨4, 1, .range 9 7 true⟩, ⟨4, 18000, .raw (digitRow 4)⟩] =
      previewJson digitValues (.value [1, 4, 4]) ∧
    ∃ out, previewJson digitValues (.value [1, 4, 4]) = .ok out ∧
      readRows out = some (readPreview digitValues (some out)) := by
  obtain ⟨hsame, -, hpoints⟩ := previews_agree digitValues digitValues_documented
  refine ⟨hsame _ _ _ (.cons ⟨digitRow 1, by decide, by decide, rfl⟩
    (.cons ⟨digitRow 4, by decide, by decide, 4, by decide, rfl⟩ (.cons rfl .nil))), ?_⟩
  obtain ⟨out, hout, -, -, hread⟩ := hpoints [1, 4, 4]
  exact ⟨out, hout, hread [1, 4, 4] (by decide) (by decide) (by decide)⟩

end Foxhole.History
