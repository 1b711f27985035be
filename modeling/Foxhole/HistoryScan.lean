import Foxhole.Lib.Check
import Foxhole.Lib.Json
import Foxhole.Ucode

/-! Reading the rows of the history without holding them: scan_rows of history.uc. -/
namespace Foxhole.History
open Check Json

inductive ScanError where
  | readFailed
  | tooLarge
  | invalid
  /-- what `json` dies with -/
  | json
deriving DecidableEq

/-- `state`, from 0 to 4. -/
inductive Phase where
  | before
  | opened
  | ended
  | comma
  | closed
deriving DecidableEq

/-- A call of `visit`. -/
structure Visit (α : Type) where
  point : α
  start : ℕ
  bytes : ℕ
  order : ℕ
deriving DecidableEq

/-- The variables of the loop; a character stands for a byte. `segment` counts from the start of
the chunk, and only while there is a `start`. -/
structure Scan (α : Type) where
  phase : Phase := .before
  reader : Reader := {}
  pending : Text := []
  start : Option ℕ := none
  segment : ℕ := 0
  offset : ℕ := 0
  rows : ℕ := 0
  visits : List (Visit α) := []
deriving DecidableEq

/-- `MAX` -/
def maximum : ℕ := 6000000

def rowLimit : ℕ := 65536

def rowsLimit : ℕ := 18000

variable {α : Type}

/-- A row ends: its text is decoded and handed over. -/
def Scan.visit (json : Text → Option α) (s : Scan α) (start : ℕ) (raw : Text) :
    Except ScanError (Scan α) := do
  require (raw.length ≤ rowLimit ∧ s.rows + 1 ≤ rowsLimit) .tooLarge
  match json raw with
  | none => throw .json
  | some point => return { s with
      visits := s.visits ++ [⟨point, start, raw.length, s.rows⟩], rows := s.rows + 1
      pending := [], start := none, segment := 0, phase := .ended }

/-- A character between rows. -/
def Scan.between (s : Scan α) (i : ℕ) (c : Char) : Except ScanError (Scan α) :=
  if isBlank c then .ok s
  else match s.phase with
    | .before => if c = '[' then .ok { s with phase := .opened } else .error .invalid
    | .opened | .comma =>
      if c = ']' ∧ s.phase = .opened then .ok { s with phase := .closed }
      else if c = ',' ∨ c = ']' then .error .invalid
      else .ok { s with start := some (s.offset + i), segment := i, reader := .start c }
    | .ended =>
      if c = ',' then .ok { s with phase := .comma }
      else if c = ']' then .ok { s with phase := .closed }
      else .error .invalid
    | .closed => .error .invalid

/-- The body of the loop over a chunk. -/
def Scan.char (json : Text → Option α) (chunk : Text) (s : Scan α) (i : ℕ) (c : Char) :
    Except ScanError (Scan α) :=
  match s.start with
  | some start =>
    if s.reader.ends c then do
      let s ← s.visit json start (s.pending ++ (chunk.drop s.segment).take (i - s.segment))
      s.between i c
    else match s.reader.read c with
      | none => .error .invalid
      | some reader => .ok { s with reader }
  | none => s.between i c

def Scan.chars (json : Text → Option α) (chunk : Text) (s : Scan α) (i : ℕ) :
    Text → Except ScanError (Scan α)
  | [] => .ok s
  | c :: rest => do
    let s ← s.char json chunk i c
    s.chars json chunk (i + 1) rest

/-- What a chunk leaves; its `segment` goes out of scope. -/
def Scan.chunk (json : Text → Option α) (s : Scan α) (chunk : Text) :
    Except ScanError (Scan α) := do
  require (s.offset + chunk.length ≤ maximum) .tooLarge
  let s ← Scan.chars json chunk { s with segment := 0 } 0 chunk
  let pending := if s.start.isSome then s.pending ++ chunk.drop s.segment else s.pending
  require (s.start.isSome → pending.length ≤ rowLimit) .tooLarge
  return { s with pending, segment := 0, offset := s.offset + chunk.length }

/-- The outer loop: `reader` answers with null, with an empty chunk at the end, or with a chunk. -/
def Scan.run (json : Text → Option α) (s : Scan α) :
    List (Option Text) → Except ScanError (List (Visit α) × ℕ)
  | some (c :: chunk) :: reader => do
    let s ← s.chunk json (c :: chunk)
    s.run json reader
  | none :: _ => .error .readFailed
  | [] | some [] :: _ => do
    require (s.phase = .closed ∧ s.start = none) .invalid
    return (s.visits, s.offset)

/-- The calls of `visit` and the result, or what the scan dies with. -/
def scanRows (json : Text → Option α) (reader : List (Option Text)) :
    Except ScanError (List (Visit α) × ℕ) := Scan.run json {} reader

/-! The same machine without chunks: `pending` is all of the row so far. -/

/-- Behind a character between rows; it may have started one. -/
def Scan.advance (s : Scan α) (c : Char) : Scan α :=
  { s with segment := 0, pending := if s.start.isSome then [c] else [], offset := s.offset + 1 }

def Scan.read (json : Text → Option α) (s : Scan α) (c : Char) : Except ScanError (Scan α) :=
  match s.start with
  | some start =>
    if s.reader.ends c then do
      let s ← s.visit json start s.pending
      let s ← s.between 0 c
      return s.advance c
    else match s.reader.read c with
      | none => .error .invalid
      | some reader => .ok { s with reader, pending := s.pending ++ [c], offset := s.offset + 1 }
  | none => do
    let s ← s.between 0 c
    return s.advance c

def Scan.reads (json : Text → Option α) (s : Scan α) : Text → Except ScanError (Scan α)
  | [] => .ok s
  | c :: rest => do
    let s ← s.read json c
    s.reads json rest

/-- What the machine without chunks knows in a chunk, in front of its character `i`. -/
def Scan.view (chunk : Text) (i : ℕ) (s : Scan α) : Scan α :=
  { s with
    pending :=
      if s.start.isSome then s.pending ++ (chunk.drop s.segment).take (i - s.segment) else []
    segment := 0, offset := s.offset + i }

/-- Between rows nothing is pending. -/
def Scan.Idle (s : Scan α) : Prop := s.start = none → s.pending = []

variable {json : Text → Option α} {s t u : Scan α} {chunk rest : Text} {i n : ℕ} {c : Char}
  {visits : List (Visit α)}

theorem reads_append {a b : Text} :
    s.reads json (a ++ b) = s.reads json a >>= (·.reads json b) := by
  induction a generalizing s with
  | nil => rfl
  | cons c a ih =>
    simp only [List.cons_append, Scan.reads, bind_assoc]
    congr 1
    funext u
    exact ih

theorem between_view (hnone : s.start = none) (hpending : s.pending = [])
    (hc : chunk.drop i = c :: rest) :
    (s.between i c).map (Scan.view chunk (i + 1)) =
      ((s.view chunk i).between 0 c).map (Scan.advance · c) := by
  obtain ⟨phase, reader, pending, start, segment, offset, rows, visits⟩ := s
  obtain rfl : start = none := hnone
  obtain rfl : pending = [] := hpending
  have htake : (chunk.drop i).take (i + 1 - i) = [c] := by simp [hc]
  simp only [Scan.between, Scan.view]
  by_cases hblank : isBlank c = true
  · simp [hblank, Except.map, Scan.view, Scan.advance, Nat.add_assoc]
  · simp only [hblank, Bool.false_eq_true, if_false]
    cases phase with
    | closed => rfl
    | before | opened | comma | ended =>
      split_ifs <;> simp [Except.map, Scan.view, Scan.advance, Nat.add_assoc, hc]

/-- What a character between rows can do. -/
theorem between_ok (h : s.between i c = .ok t) :
    (isBlank c = true ∧ t = s) ∨ isBlank c = false ∧
      ((s.phase = .before ∧ c = '[' ∧ t = { s with phase := .opened }) ∨
      (s.phase = .opened ∧ c = ']' ∧ t = { s with phase := .closed }) ∨
      ((s.phase = .opened ∨ s.phase = .comma) ∧ c ≠ ',' ∧ c ≠ ']' ∧
        t = { s with start := some (s.offset + i), segment := i, reader := .start c }) ∨
      (s.phase = .ended ∧ c = ',' ∧ t = { s with phase := .comma }) ∨
      (s.phase = .ended ∧ c = ']' ∧ t = { s with phase := .closed })) := by
  unfold Scan.between at h
  by_cases hblank : isBlank c = true
  · simp only [hblank, if_true, Except.ok.injEq] at h
    exact Or.inl ⟨hblank, h.symm⟩
  · simp only [hblank, Bool.false_eq_true, if_false] at h
    refine Or.inr ⟨by simpa using hblank, ?_⟩
    cases hp : s.phase with
    | closed => simp [hp] at h
    | before | opened | comma | ended =>
      simp only [hp] at h
      split_ifs at h <;> cases h <;> simp_all

/-- What a character between rows leaves: nothing pending, unless it starts a row there. -/
theorem between_idle (hpending : s.pending = []) (hseg : s.segment ≤ i)
    (h : s.between i c = .ok t) : t.pending = [] ∧ t.segment ≤ i := by
  rcases between_ok h with ⟨-, rfl⟩ | ⟨-, ⟨-, -, rfl⟩ | ⟨-, -, rfl⟩ | ⟨-, -, -, rfl⟩ | ⟨-, -, rfl⟩ |
    ⟨-, -, rfl⟩⟩
  case inr.inr.inr.inl => exact ⟨hpending, le_rfl⟩
  all_goals exact ⟨hpending, hseg⟩

theorem visit_ok {start : ℕ} {raw : Text} : s.visit json start raw = .ok t ↔
    raw.length ≤ rowLimit ∧ s.rows + 1 ≤ rowsLimit ∧ ∃ point, json raw = some point ∧
      t = { s with
        visits := s.visits ++ [⟨point, start, raw.length, s.rows⟩], rows := s.rows + 1
        pending := [], start := none, segment := 0, phase := .ended } := by
  simp only [Scan.visit, bind_eq_ok, require_eq_ok]
  cases hj : json raw with
  | none => simp
  | some point =>
    simp only [pure_eq_ok, Option.some.injEq, exists_eq_left']
    constructor
    · rintro ⟨_, ⟨hl, hr⟩, ht⟩
      exact ⟨hl, hr, ht.symm⟩
    · rintro ⟨hl, hr, ht⟩
      exact ⟨(), ⟨hl, hr⟩, ht.symm⟩

theorem visit_view {start : ℕ} {raw : Text} : (s.view chunk i).visit json start raw =
    (s.visit json start raw).map (Scan.view chunk i) := by
  have hrows : (s.view chunk i).rows = s.rows := rfl
  simp only [Scan.visit, hrows, require]
  by_cases hfits : raw.length ≤ rowLimit ∧ s.rows + 1 ≤ rowsLimit
  · simp only [hfits, and_self, if_true]
    cases json raw <;> rfl
  · simp only [hfits, if_false]
    rfl

theorem char_view (hidle : s.Idle) (hseg : s.segment ≤ i) (hc : chunk.drop i = c :: rest) :
    (s.char json chunk i c).map (Scan.view chunk (i + 1)) = (s.view chunk i).read json c := by
  cases hstart : s.start with
  | none =>
    have hview : (s.view chunk i).start = none := hstart
    simp only [Scan.char, Scan.read, hstart, hview]
    rw [between_view hstart (hidle hstart) hc]
    rfl
  | some start =>
    have hview : (s.view chunk i).start = some start := hstart
    have hreader : (s.view chunk i).reader = s.reader := rfl
    have hraw : (s.view chunk i).pending =
        s.pending ++ (chunk.drop s.segment).take (i - s.segment) := by simp [Scan.view, hstart]
    simp only [Scan.char, Scan.read, hstart, hview, hreader, hraw]
    by_cases hends : s.reader.ends c = true
    · simp only [hends, if_true]
      rw [visit_view]
      cases hvisit :
        s.visit json start (s.pending ++ (chunk.drop s.segment).take (i - s.segment)) with
      | error e => rfl
      | ok t =>
        obtain ⟨-, -, point, -, ht⟩ := visit_ok.1 hvisit
        exact between_view (by rw [ht]) (by rw [ht]) hc
    · simp only [hends]
      cases hread : s.reader.read c with
      | none => rfl
      | some reader =>
        have hlen : i - s.segment < (chunk.drop s.segment).length := by
          have := congrArg List.length hc
          simp only [List.length_drop, List.length_cons] at this ⊢
          omega
        have hget : (chunk.drop s.segment)[i - s.segment]? = some c := by
          rw [List.getElem?_drop, Nat.add_sub_cancel' hseg]
          have := congrArg List.head? hc
          simpa [List.head?_drop] using this
        have htake : (chunk.drop s.segment).take (i + 1 - s.segment) =
            (chunk.drop s.segment).take (i - s.segment) ++ [c] := by
          rw [show i + 1 - s.segment = i - s.segment + 1 by omega, List.take_add_one, hget]
          rfl
        simp [Except.map, Scan.view, hstart, htake, Nat.add_assoc]

theorem char_idle (hidle : s.Idle) (hseg : s.segment ≤ i) (h : s.char json chunk i c = .ok t) :
    t.Idle ∧ t.segment ≤ i := by
  unfold Scan.char at h
  cases hstart : s.start with
  | none =>
    rw [hstart] at h
    obtain ⟨hpending, hsegment⟩ := between_idle (hidle hstart) hseg h
    exact ⟨fun _ => hpending, hsegment⟩
  | some start =>
    simp only [hstart] at h
    split at h
    · obtain ⟨u, hu, h⟩ := bind_eq_ok.1 h
      obtain ⟨-, -, point, -, rfl⟩ := visit_ok.1 hu
      obtain ⟨hpending, hsegment⟩ := between_idle rfl (Nat.zero_le i) h
      exact ⟨fun _ => hpending, hsegment⟩
    · split at h
      · cases h
      · cases h
        exact ⟨fun hnone => by simp at hnone, hseg⟩

/-- The characters of a chunk, read with its indices or without. -/
theorem chars_view (hidle : s.Idle) (hseg : s.segment ≤ i) (hrest : chunk.drop i = rest) :
    (s.chars json chunk i rest).map (Scan.view chunk (i + rest.length)) =
      (s.view chunk i).reads json rest ∧
    ∀ t, s.chars json chunk i rest = .ok t → t.Idle ∧ t.segment ≤ i + rest.length := by
  induction rest generalizing s i with
  | nil =>
    refine ⟨rfl, fun t h => ?_⟩
    cases h
    exact ⟨hidle, hseg⟩
  | cons c rest ih =>
    have hchar : (s.char json chunk i c).map (Scan.view chunk (i + 1)) =
        (s.view chunk i).read json c := char_view hidle hseg hrest
    have hnext : chunk.drop (i + 1) = rest := by
      rw [← List.drop_drop, hrest]
      rfl
    simp only [Scan.chars, Scan.reads, ← hchar]
    cases hc : s.char json chunk i c with
    | error e => exact ⟨rfl, fun t h => by cases h⟩
    | ok u =>
      obtain ⟨hu, hus⟩ := char_idle hidle hseg hc
      obtain ⟨hview, hkept⟩ := ih hu (hus.trans (Nat.le_succ i)) hnext
      have hlen : i + (c :: rest).length = i + 1 + rest.length := by simp; omega
      rw [hlen]
      exact ⟨hview, hkept⟩

/-- A chunk is its characters, and a bound on the row it leaves open. -/
theorem chunk_eq (hidle : s.Idle) (hseg : s.segment = 0) : s.chunk json chunk = (do
    require (s.offset + chunk.length ≤ maximum) .tooLarge
    let t ← s.reads json chunk
    require (t.pending.length ≤ rowLimit) .tooLarge
    return t) := by
  have hzero : { s with segment := 0 } = s := by
    cases s
    simp_all
  have hview : s.view chunk 0 = s := by
    obtain ⟨phase, reader, pending, start, segment, offset, rows, visits⟩ := s
    obtain rfl : segment = 0 := hseg
    cases start with
    | none =>
      obtain rfl : pending = [] := hidle rfl
      simp [Scan.view]
    | some start => simp [Scan.view]
  obtain ⟨hreads, hkept⟩ := @chars_view α json s chunk chunk 0 hidle hseg.le List.drop_zero
  rw [hview, Nat.zero_add] at hreads
  simp only [Scan.chunk, hzero, ← hreads]
  by_cases hmax : s.offset + chunk.length ≤ maximum
  · simp only [require, hmax, if_true]
    cases hchars : s.chars json chunk 0 chunk with
    | error e => rfl
    | ok u =>
      obtain ⟨hu, -⟩ := hkept u hchars
      obtain ⟨phase, reader, pending, start, segment, offset, rows, visits⟩ := u
      cases start with
      | none =>
        obtain rfl : pending = [] := hu rfl
        simp [Except.map, Scan.view, bind, Except.bind]
      | some start =>
        have htake : (chunk.drop segment).take (chunk.length - segment) = chunk.drop segment :=
          List.take_of_length_le (by simp)
        simp [Except.map, Scan.view, bind, Except.bind, htake]
  · simp only [require, hmax, if_false]
    rfl

/-- What one character can do. -/
theorem read_ok (h : s.read json c = .ok t) :
    (∃ start u v, s.start = some start ∧ s.reader.ends c = true ∧
      s.visit json start s.pending = .ok u ∧ u.between 0 c = .ok v ∧ t = v.advance c) ∨
    (∃ start reader, s.start = some start ∧ s.reader.ends c = false ∧ s.reader.read c =
      some reader ∧
      t = { s with reader, pending := s.pending ++ [c], offset := s.offset + 1 }) ∨
    (s.start = none ∧ ∃ v, s.between 0 c = .ok v ∧ t = v.advance c) := by
  unfold Scan.read at h
  cases hstart : s.start with
  | none =>
    rw [hstart] at h
    obtain ⟨v, hv, h⟩ := bind_eq_ok.1 h
    exact Or.inr (Or.inr ⟨rfl, v, hv, (pure_eq_ok.1 h).symm⟩)
  | some start =>
    simp only [hstart] at h
    by_cases hends : s.reader.ends c = true
    · simp only [hends, if_true] at h
      obtain ⟨u, hu, h⟩ := bind_eq_ok.1 h
      obtain ⟨v, hv, h⟩ := bind_eq_ok.1 h
      exact Or.inl ⟨start, u, v, rfl, hends, hu, hv, (pure_eq_ok.1 h).symm⟩
    · simp only [hends, Bool.false_eq_true, if_false] at h
      cases hread : s.reader.read c with
      | none => simp [hread] at h
      | some reader =>
        simp only [hread, Except.ok.injEq] at h
        exact Or.inr (Or.inl ⟨start, reader, rfl, by simpa using hends, rfl, h.symm⟩)

theorem between_offset (h : s.between i c = .ok t) : t.offset = s.offset := by
  rcases between_ok h with ⟨-, rfl⟩ | ⟨-, ⟨-, -, rfl⟩ | ⟨-, -, rfl⟩ | ⟨-, -, -, rfl⟩ | ⟨-, -, rfl⟩ |
    ⟨-, -, rfl⟩⟩ <;> rfl

/-- A character is counted, and nothing is pending between rows. -/
theorem read_kept (h : s.read json c = .ok t) (hseg : s.segment = 0) :
    t.Idle ∧ t.segment = 0 ∧ t.offset = s.offset + 1 := by
  have hadvance (v : Scan α) : (v.advance c).Idle := by
    intro hnone
    have hnone : v.start = none := hnone
    simp [Scan.advance, hnone]
  rcases read_ok h with ⟨start, u, v, -, -, hu, hv, rfl⟩ | ⟨start, reader, hstart, -, -, rfl⟩ |
    ⟨-, v, hv, rfl⟩
  · obtain ⟨-, -, point, -, rfl⟩ := visit_ok.1 hu
    refine ⟨hadvance v, rfl, ?_⟩
    show v.offset + 1 = s.offset + 1
    rw [between_offset hv]
  · refine ⟨fun hnone => ?_, hseg, rfl⟩
    have hnone : s.start = none := hnone
    simp [hnone] at hstart
  · exact ⟨hadvance v, rfl, congrArg (· + 1) (between_offset hv)⟩

theorem reads_kept {text : Text} (h : s.reads json text = .ok t) (hidle : s.Idle)
    (hseg : s.segment = 0) : t.Idle ∧ t.segment = 0 ∧ t.offset = s.offset + text.length := by
  induction text generalizing s with
  | nil =>
    cases h
    exact ⟨hidle, hseg, rfl⟩
  | cons c text ih =>
    obtain ⟨u, hu, h⟩ := bind_eq_ok.1 h
    obtain ⟨huidle, huseg, hoff⟩ := read_kept hu hseg
    obtain ⟨htidle, htseg, hlen⟩ := ih h huidle huseg
    refine ⟨htidle, htseg, ?_⟩
    rw [hlen, hoff, List.length_cons]
    omega

/-- A row that is ended in time was never too long. -/
theorem pending_le {text : Text} (h : s.reads json text = .ok t) (ht : t.start = none)
    (hidle : s.Idle) (hseg : s.segment = 0) : s.pending.length ≤ rowLimit := by
  induction text generalizing s with
  | nil =>
    cases h
    simp [hidle ht]
  | cons c text ih =>
    obtain ⟨u, hu, h⟩ := bind_eq_ok.1 h
    obtain ⟨huidle, huseg, -⟩ := read_kept hu hseg
    rcases read_ok hu with
      ⟨start, v, w, -, -, hv, -, -⟩ | ⟨start, reader, -, -, -, hgrown⟩ | ⟨hnone, -⟩
    · exact (visit_ok.1 hv).1
    · have hle := ih h huidle huseg
      rw [hgrown] at hle
      simp only [List.length_append, List.length_singleton] at hle
      omega
    · simp [hidle hnone]

/-- The scan of a chunked text is that of the text, with a bound on its length. -/
theorem run_eq_ok {chunks : List Text} (hne : ∀ chunk ∈ chunks, chunk ≠ []) (hidle : s.Idle)
    (hseg : s.segment = 0) (hmax : s.offset ≤ maximum) :
    s.run json (chunks.map some) = .ok (visits, n) ↔ ∃ t, s.reads json chunks.flatten = .ok t ∧
      t.phase = .closed ∧ t.start = none ∧ t.offset ≤ maximum ∧ t.visits = visits ∧
        t.offset = n := by
  induction chunks generalizing s with
  | nil =>
    simp only [List.map_nil, Scan.run, bind_eq_ok, require_eq_ok, pure_eq_ok, List.flatten_nil,
      Scan.reads, Except.ok.injEq, Prod.mk.injEq]
    constructor
    · rintro ⟨_, ⟨hphase, hstart⟩, hv, hn⟩
      exact ⟨s, rfl, hphase, hstart, hmax, hv, hn⟩
    · rintro ⟨_, rfl, hphase, hstart, -, hv, hn⟩
      exact ⟨(), ⟨hphase, hstart⟩, hv, hn⟩
  | cons chunk chunks ih =>
    obtain ⟨hchunk, hrest⟩ := List.forall_mem_cons.1 hne
    obtain ⟨c, chunk, rfl⟩ := List.exists_cons_of_ne_nil hchunk
    simp only [List.map_cons, Scan.run, List.flatten_cons, reads_append, chunk_eq hidle hseg,
      bind_eq_ok, require_eq_ok, pure_eq_ok]
    constructor
    · rintro ⟨u, ⟨_, hle, _, hreads, _, hpending, rfl⟩, hrun⟩
      obtain ⟨huidle, huseg, huoff⟩ := reads_kept hreads hidle hseg
      obtain ⟨t, ht, hfinal⟩ := (ih hrest huidle huseg (huoff ▸ hle)).1 hrun
      exact ⟨t, ⟨_, hreads, ht⟩, hfinal⟩
    · rintro ⟨t, ⟨u, hreads, ht⟩, hphase, hstart, hoff, hfinal⟩
      obtain ⟨huidle, huseg, huoff⟩ := reads_kept hreads hidle hseg
      obtain ⟨-, -, htoff⟩ := reads_kept ht huidle huseg
      have hle : u.offset ≤ maximum := by omega
      refine ⟨u, ⟨(), huoff ▸ hle, u, hreads, (), pending_le ht hstart huidle huseg, rfl⟩, ?_⟩
      exact (ih hrest huidle huseg hle).2 ⟨t, ht, hphase, hstart, hoff, hfinal⟩

end Foxhole.History
