import Mathlib.Data.List.Basic
import Mathlib.Tactic.Common

/-! The texts of RFC 8259, and how a reader that only tracks quotes and brackets gets through
them. -/
namespace Foxhole.Json

/-! The grammar. -/

/-- White space around the tokens. -/
def isBlank (c : Char) : Bool := c = ' ' || c = '\n' || c = '\r' || c = '\t'

def Blank (t : List Char) : Prop := ∀ c ∈ t, isBlank c = true

def isHex (c : Char) : Bool :=
  c.isDigit || ('a' ≤ c && c ≤ 'f') || ('A' ≤ c && c ≤ 'F')

def Digits (t : List Char) : Prop := t ≠ [] ∧ ∀ c ∈ t, c.isDigit = true

/-- `-? (0 | [1-9][0-9]*)`, a fraction and an exponent. -/
def Number (t : List Char) : Prop :=
  ∃ sign int frac exp, t = sign ++ int ++ frac ++ exp ∧ (sign = [] ∨ sign = ['-']) ∧
    (int = ['0'] ∨ Digits int ∧ int.head? ≠ some '0') ∧
    (frac = [] ∨ ∃ d, Digits d ∧ frac = '.' :: d) ∧
    (exp = [] ∨ ∃ e s d, (e = 'e' ∨ e = 'E') ∧ (s = [] ∨ s = ['+'] ∨ s = ['-']) ∧ Digits d ∧
      exp = e :: (s ++ d))

/-- What stands between the quotes of a string. -/
inductive Body : List Char → Prop
  | nil : Body []
  | plain {c t} : c ≠ '"' → c ≠ '\\' → ' ' ≤ c → Body t → Body (c :: t)
  | escape {c t} : c ∈ ['"', '\\', '/', 'b', 'f', 'n', 'r', 't'] → Body t → Body ('\\' :: c :: t)
  | unicode {h t} : h.length = 4 → h.all isHex = true → Body t → Body ('\\' :: 'u' :: (h ++ t))

inductive Kind where
  | value
  | element
  | elements
  | members
deriving DecidableEq

/-- The texts of each kind; an element is a value with its white space, and a whole JSON text. -/
inductive Derives : Kind → List Char → Prop
  | word {t} : t ∈ ["null".toList, "true".toList, "false".toList] → Derives .value t
  | number {t} : Number t → Derives .value t
  | string {t} : Body t → Derives .value ('"' :: (t ++ ['"']))
  | emptyArray {w} : Blank w → Derives .value ('[' :: (w ++ [']']))
  | array {t} : Derives .elements t → Derives .value ('[' :: (t ++ [']']))
  | emptyObject {w} : Blank w → Derives .value ('\x7b' :: (w ++ ['\x7d']))
  | object {t} : Derives .members t → Derives .value ('\x7b' :: (t ++ ['\x7d']))
  | element {w v w'} : Blank w → Derives .value v → Blank w' → Derives .element (w ++ (v ++ w'))
  | single {t} : Derives .element t → Derives .elements t
  | elements {s t} : Derives .element s → Derives .elements t → Derives .elements (s ++ ',' :: t)
  | member {w k w' t} : Blank w → Body k → Blank w' → Derives .element t →
      Derives .members (w ++ '"' :: (k ++ '"' :: (w' ++ ':' :: t)))
  | members {w k w' s t} : Blank w → Body k → Blank w' → Derives .element s → Derives .members t →
      Derives .members (w ++ '"' :: (k ++ '"' :: (w' ++ ':' :: (s ++ ',' :: t))))

/-! A reader of quotes and brackets. -/

/-- Whether the reader is in a string, behind a backslash there, and in how many brackets. -/
structure Reader where
  quoted : Bool := false
  escaped : Bool := false
  depth : ℕ := 0
deriving DecidableEq

/-- One character; a closing bracket needs an open one, of either kind. -/
def Reader.read (r : Reader) (c : Char) : Option Reader :=
  if r.quoted then
    if r.escaped then some { r with escaped := false }
    else if c = '\\' then some { r with escaped := true }
    else if c = '"' then some { r with quoted := false }
    else some r
  else if c = '"' then some { r with quoted := true }
  else if c = '\x7b' ∨ c = '[' then some { r with depth := r.depth + 1 }
  else if c = '\x7d' ∨ c = ']' then if r.depth = 0 then none
    else some { r with depth := r.depth - 1 }
  else some r

/-- The first character behind a value that ends it. -/
def Reader.ends (r : Reader) (c : Char) : Bool :=
  !r.quoted && r.depth = 0 && (c = ',' || c = ']')

/-- The reader gets through the text without meeting an end. -/
def Reader.Passes (r : Reader) : List Char → Reader → Prop
  | [], r' => r = r'
  | c :: t, r' => r.ends c = false ∧ ∃ s, r.read c = some s ∧ s.Passes t r'

variable {r r' r'' : Reader} {s t w v : List Char} {c : Char} {d : ℕ}

theorem Reader.Passes.append (h : r.Passes s r') (h' : r'.Passes t r'') :
    r.Passes (s ++ t) r'' := by
  induction s generalizing r with
  | nil =>
    obtain rfl : r = r' := h
    exact h'
  | cons c s ih =>
    obtain ⟨hends, r₁, hread, h⟩ := h
    exact ⟨hends, r₁, hread, ih h⟩

/-- Behind one character the reader goes on. -/
theorem Reader.Passes.cons (r₁ : Reader) (hends : r.ends c = false) (hread : r.read c = some r₁)
    (h : r₁.Passes t r') : r.Passes (c :: t) r' := ⟨hends, r₁, hread, h⟩

/-- Outside strings, in `d` brackets. -/
def outside (d : ℕ) : Reader := { depth := d }

/-- In a string, in `d` brackets. -/
def inside (d : ℕ) : Reader := { quoted := true, depth := d }

/-- The characters that mean nothing outside a string. -/
def isPlain (c : Char) : Bool :=
  c ≠ '"' && c ≠ '\x7b' && c ≠ '[' && c ≠ '\x7d' && c ≠ ']' && c ≠ ','

theorem passes_plain (h : ∀ c ∈ t, isPlain c = true) : (outside d).Passes t (outside d) := by
  induction t with
  | nil => rfl
  | cons c t ih =>
    obtain ⟨hc, ht⟩ := List.forall_mem_cons.1 h
    simp only [isPlain, Bool.and_eq_true, decide_eq_true_eq, ne_eq] at hc
    obtain ⟨⟨⟨⟨⟨hq, hb⟩, ha⟩, hb'⟩, ha'⟩, hcomma⟩ := hc
    refine .cons _ ?_ ?_ (ih ht)
    · simp [Reader.ends, hcomma, ha']
    · simp [Reader.read, outside, hq, hb, ha, hb', ha']

theorem Blank.concat (h : Blank w) (hc : isBlank c = true) : Blank (w ++ [c]) :=
  List.forall_mem_append.2 ⟨h, by simpa using hc⟩

theorem Blank.append {w' : List Char} (h : Blank w) (h' : Blank w') : Blank (w ++ w') :=
  List.forall_mem_append.2 ⟨h, h'⟩

theorem Blank.passes (h : Blank w) : (outside d).Passes w (outside d) := by
  refine passes_plain fun c hc => ?_
  have hblank := h c hc
  simp only [isBlank, Bool.or_eq_true, decide_eq_true_eq] at hblank
  rcases hblank with ((rfl | rfl) | rfl) | rfl <;> decide

/-- In a string nothing ends a value. -/
theorem ends_inside : (inside d).ends c = false := rfl

theorem passes_quoted (hq : c ≠ '"') (hb : c ≠ '\\') : (inside d).Passes [c] (inside d) :=
  .cons _ ends_inside (by simp [Reader.read, inside, hq, hb]) rfl

/-- What is behind a backslash is passed whatever it is. -/
theorem passes_escape : (inside d).Passes ['\\', c] (inside d) :=
  .cons { inside d with escaped := true } ends_inside (by simp [Reader.read, inside])
    (.cons _ rfl (by simp [Reader.read, inside]) rfl)

theorem passes_hex (h : ∀ c ∈ t, isHex c = true) : (inside d).Passes t (inside d) := by
  induction t with
  | nil => rfl
  | cons c t ih =>
    obtain ⟨hc, ht⟩ := List.forall_mem_cons.1 h
    refine Reader.Passes.append (passes_quoted ?_ ?_) (ih ht) <;> rintro rfl <;> revert
      hc <;> decide

theorem Body.passes (h : Body t) : (inside d).Passes t (inside d) := by
  induction h with
  | nil => rfl
  | plain hq hb _ _ ih => exact (passes_quoted hq hb).append ih
  | escape _ _ ih => exact passes_escape.append ih
  | unicode _ hall _ ih =>
    exact passes_escape.append ((passes_hex (List.all_eq_true.1 hall)).append ih)

theorem Body.passes_string (h : Body t) :
    (outside d).Passes ('"' :: (t ++ ['"'])) (outside d) := by
  refine .cons (inside d) (by simp [Reader.ends]) (by simp [Reader.read, outside, inside]) ?_
  exact h.passes.append (.cons (outside d) ends_inside (by simp [Reader.read, inside, outside]) rfl)

theorem isPlain_digit (h : c.isDigit = true) : isPlain c = true := by
  have hne (e : Char) (he : e.isDigit = false) : c ≠ e := by
    rintro rfl
    simp [he] at h
  simp [isPlain, hne '"' rfl, hne '\x7b' rfl, hne '[' rfl, hne '\x7d' rfl, hne ']' rfl, hne ',' rfl]

theorem Digits.plain (h : Digits t) : ∀ c ∈ t, isPlain c = true :=
  fun c hc => isPlain_digit (h.2 c hc)

theorem Number.plain (h : Number t) : ∀ c ∈ t, isPlain c = true := by
  obtain ⟨sign, int, frac, exp, rfl, hsign, hint, hfrac, hexp⟩ := h
  have hone {e c : Char} (he : isPlain e = true) (hc : c ∈ [e]) : isPlain c = true :=
    List.mem_singleton.1 hc ▸ he
  simp only [List.append_assoc, List.forall_mem_append]
  refine ⟨?_, ?_, ?_, ?_⟩
  · rcases hsign with rfl | rfl
    · simp
    · exact fun c hc => hone (by decide) hc
  · rcases hint with rfl | ⟨hint, -⟩
    · exact fun c hc => hone (by decide) hc
    · exact hint.plain
  · rcases hfrac with rfl | ⟨d, hd, rfl⟩
    · simp
    · exact List.forall_mem_cons.2 ⟨by decide, hd.plain⟩
  · rcases hexp with rfl | ⟨e, sgn, d, he, hs, hd, rfl⟩
    · simp
    · refine List.forall_mem_cons.2 ⟨?_, List.forall_mem_append.2 ⟨?_, hd.plain⟩⟩
      · rcases he with rfl | rfl <;> decide
      · rcases hs with rfl | rfl | rfl
        · simp
        · exact fun c hc => hone (by decide) hc
        · exact fun c hc => hone (by decide) hc

theorem word_plain (h : t ∈ ["null".toList, "true".toList, "false".toList]) :
    ∀ c ∈ t, isPlain c = true := by
  simp only [List.mem_cons, List.not_mem_nil, or_false] at h
  rcases h with rfl | rfl | rfl <;> simp [isPlain]

/-- How many brackets a text of the kind stands in at least. -/
def Kind.floor : Kind → ℕ
  | .value | .element => 0
  | .elements | .members => 1

/-- A comma in brackets is passed. -/
theorem passes_comma : (outside (d + 1)).Passes [','] (outside (d + 1)) :=
  .cons _ (by simp [Reader.ends, outside]) (by simp [Reader.read, outside]) rfl

theorem passes_colon : (outside d).Passes [':'] (outside d) := passes_plain (by simp [isPlain])

/-- Brackets around what passes one deeper. -/
theorem Reader.Passes.bracket {a b : Char} (ha : a = '\x7b' ∨ a = '[') (hb : b = '\x7d' ∨ b = ']')
    (h : (outside (d + 1)).Passes t (outside (d + 1))) :
    (outside d).Passes (a :: (t ++ [b])) (outside d) := by
  have hopen : (outside d).Passes [a] (outside (d + 1)) := by
    refine .cons (outside (d + 1)) ?_ ?_ rfl
    · rcases ha with rfl | rfl <;> simp [Reader.ends]
    · rcases ha with rfl | rfl <;> simp [Reader.read, outside]
  have hclose : (outside (d + 1)).Passes [b] (outside d) := by
    refine .cons (outside d) ?_ ?_ rfl
    · simp [Reader.ends, outside]
    · rcases hb with rfl | rfl <;> simp [Reader.read, outside]
  exact hopen.append (h.append hclose)

/-- A text of the grammar passes, and leaves the reader where it was. -/
theorem Derives.passes {k : Kind} (h : Derives k t) (hd : k.floor ≤ d) :
    (outside d).Passes t (outside d) := by
  induction h generalizing d with
  | word h => exact passes_plain (word_plain h)
  | number h => exact passes_plain h.plain
  | string h => exact h.passes_string
  | emptyArray h | emptyObject h => exact .bracket (by simp) (by simp) h.passes
  | array _ ih | object _ ih => exact .bracket (by simp) (by simp) (ih (by simp [Kind.floor]))
  | element hw _ hw' ih => exact hw.passes.append ((ih (by simp [Kind.floor])).append hw'.passes)
  | single _ ih => exact ih (by simp [Kind.floor])
  | elements _ _ ihs iht =>
    obtain ⟨d, rfl⟩ : ∃ e, d = e + 1 := ⟨d - 1, by simp only [Kind.floor] at hd; omega⟩
    exact (ihs (by simp [Kind.floor])).append (passes_comma.append (iht hd))
  | member hw hk hw' _ ih =>
    have hstring := (hk.passes_string (d := d)).append (hw'.passes.append passes_colon)
    have := hw.passes.append (hstring.append (ih (by simp [Kind.floor])))
    simpa using this
  | members hw hk hw' _ _ ihs iht =>
    obtain ⟨d, rfl⟩ : ∃ e, d = e + 1 := ⟨d - 1, by simp only [Kind.floor] at hd; omega⟩
    have hstring := (hk.passes_string (d := d + 1)).append (hw'.passes.append passes_colon)
    have hrest := (ihs (d := d + 1) (by simp [Kind.floor])).append (passes_comma.append (iht hd))
    have := hw.passes.append (hstring.append hrest)
    simpa using this

/-! Values begin with a character that is not blank. -/

/-- The reader that starts on the first character of a value. -/
def Reader.start (c : Char) : Reader :=
  { quoted := c = '"', depth := if c = '\x7b' ∨ c = '[' then 1 else 0 }

theorem read_start (h : (outside 0).read c = some r) : r = Reader.start c := by
  simp only [Reader.read, outside, Bool.false_eq_true, if_false, if_true] at h
  unfold Reader.start
  by_cases hq : c = '"'
  · subst hq
    simpa [eq_comm] using h
  · by_cases hopen : c = '\x7b' ∨ c = '['
    · simpa [hq, hopen, eq_comm] using h
    · by_cases hclose : c = '\x7d' ∨ c = ']'
      · simp [hq, hopen, hclose] at h
      · simpa [hq, hopen, hclose, eq_comm] using h

theorem Digits.head (h : Digits t) : ∃ c s, t = c :: s ∧ isBlank c = false := by
  obtain ⟨hne, hdigit⟩ := h
  obtain ⟨c, s, rfl⟩ := List.exists_cons_of_ne_nil hne
  refine ⟨c, s, rfl, ?_⟩
  have hc := hdigit c List.mem_cons_self
  by_contra hblank
  simp only [isBlank, Bool.not_eq_false, Bool.or_eq_true, decide_eq_true_eq] at hblank
  rcases hblank with ((rfl | rfl) | rfl) | rfl <;> revert hc <;> decide

theorem Number.head (h : Number t) : ∃ c s, t = c :: s ∧ isBlank c = false := by
  obtain ⟨sign, int, frac, exp, rfl, hsign, hint, -, -⟩ := h
  rcases hsign with rfl | rfl
  · rcases hint with rfl | ⟨hint, -⟩
    · exact ⟨'0', _, rfl, by decide⟩
    · obtain ⟨c, s, rfl, hc⟩ := hint.head
      exact ⟨c, _, rfl, hc⟩
  · exact ⟨'-', _, rfl, by decide⟩

theorem Derives.head (h : Derives .value v) : ∃ c t, v = c :: t ∧ isBlank c = false := by
  cases h with
  | word h =>
    simp only [List.mem_cons, List.not_mem_nil, or_false] at h
    rcases h with rfl | rfl | rfl <;> exact ⟨_, _, rfl, by decide⟩
  | number h => exact h.head
  | string | emptyArray | array | emptyObject | object => exact ⟨_, _, rfl, by decide⟩

/-! The elements of an array, and where they stand. -/

/-- An element: its value, and the white space on both sides. -/
structure Item where
  lead : List Char
  value : List Char
  trail : List Char
deriving DecidableEq

def Item.text (item : Item) : List Char := item.lead ++ (item.value ++ item.trail)

structure Item.Ok (item : Item) : Prop where
  lead : Blank item.lead
  value : Derives .value item.value
  trail : Blank item.trail

theorem element_iff : Derives .element t ↔ ∃ item : Item, item.Ok ∧ item.text = t := by
  constructor
  · rintro (_ | _ | _ | _ | _ | _ | _ | ⟨hw, hv, hw'⟩)
    exact ⟨⟨_, _, _⟩, ⟨hw, hv, hw'⟩, rfl⟩
  · rintro ⟨item, hok, rfl⟩
    exact .element hok.lead hok.value hok.trail

/-- Elements with their commas. -/
def joined : List Item → List Char
  | [] => []
  | [item] => item.text
  | item :: items => item.text ++ ',' :: joined items

/-- Elements with a comma behind each. -/
def closed (items : List Item) : List Char := items.flatMap fun item => item.text ++ [',']

theorem joined_concat {items : List Item} {item : Item} :
    joined (items ++ [item]) = closed items ++ item.text := by
  induction items with
  | nil => rfl
  | cons first items ih =>
    have hcons : joined (first :: (items ++ [item])) =
        first.text ++ ',' :: joined (items ++ [item]) := by
      cases items <;> rfl
    rw [List.cons_append, hcons, ih]
    simp [closed]

theorem elements_iff : Derives .elements t ↔
    ∃ items : List Item, items ≠ [] ∧ (∀ item ∈ items, item.Ok) ∧ joined items = t := by
  constructor
  · intro h
    generalize hk : Kind.elements = k at h
    induction h with
    | single h =>
      obtain ⟨item, hok, rfl⟩ := element_iff.1 h
      exact ⟨[item], by simp, by simpa using hok, rfl⟩
    | elements h _ _ ih =>
      obtain ⟨item, hok, rfl⟩ := element_iff.1 h
      obtain ⟨items, hne, hall, rfl⟩ := ih rfl
      obtain ⟨first, items, rfl⟩ := List.exists_cons_of_ne_nil hne
      exact ⟨item :: first :: items, by simp, List.forall_mem_cons.2 ⟨hok, hall⟩, rfl⟩
    | _ => cases hk
  · rintro ⟨items, hne, hall, rfl⟩
    induction items with
    | nil => exact absurd rfl hne
    | cons item items ih =>
      obtain ⟨hok, hall⟩ := List.forall_mem_cons.1 hall
      have hitem := element_iff.2 ⟨item, hok, rfl⟩
      cases items with
      | nil => exact .single hitem
      | cons next items => exact .elements hitem (ih (by simp) hall)

/-- The text of an array, taken apart; `inner` is the white space of one with no elements. -/
structure Listing where
  before : List Char
  items : List Item
  inner : List Char := []
  after : List Char
deriving DecidableEq

def Listing.body (a : Listing) : List Char := if a.items = [] then a.inner else joined a.items

def Listing.text (a : Listing) : List Char := a.before ++ '[' :: (a.body ++ ']' :: a.after)

structure Listing.Ok (a : Listing) : Prop where
  before : Blank a.before
  items : ∀ item ∈ a.items, item.Ok
  inner : Blank a.inner
  after : Blank a.after

/-! An array is taken apart in one way, up to the white space behind a value. -/

/-- The value and the white space behind it. -/
def Item.row (item : Item) : List Char := item.value ++ item.trail

theorem takeWhile_blank (h : Blank w) (hc : isBlank c = false) :
    (w ++ c :: t).takeWhile isBlank = w := by
  induction w with
  | nil => simp [hc]
  | cons d w ih =>
    obtain ⟨hd, hw⟩ := List.forall_mem_cons.1 h
    rw [List.cons_append, List.takeWhile_cons, if_pos hd, ih hw]

theorem Item.Ok.lead_eq {item : Item} (h : item.Ok) : item.text.takeWhile isBlank = item.lead := by
  obtain ⟨c, rest, hvalue, hc⟩ := h.value.head
  rw [Item.text, hvalue, List.cons_append]
  exact takeWhile_blank h.lead hc

theorem Item.Ok.text_inj {item other : Item} (h : item.Ok) (h' : other.Ok)
    (heq : item.text = other.text) : item.lead = other.lead ∧ item.row = other.row := by
  have hlead : item.lead = other.lead := by rw [← h.lead_eq, ← h'.lead_eq, heq]
  refine ⟨hlead, ?_⟩
  rw [Item.text, Item.text, hlead] at heq
  exact List.append_cancel_left heq

theorem Item.Ok.passes {item : Item} (h : item.Ok) : (outside 0).Passes item.text (outside 0) :=
  h.lead.passes.append ((h.value.passes (by simp [Kind.floor])).append h.trail.passes)

/-- Where a reader first meets an end is determined by the text. -/
theorem Reader.Passes.first_end {s' t' : List Char} {q q' : Reader} {c' : Char}
    (h : r.Passes s q) (hc : q.ends c = true) (h' : r.Passes s' q') (hc' : q'.ends c' = true)
    (heq : s ++ c :: t = s' ++ c' :: t') : s = s' ∧ c = c' ∧ t = t' := by
  induction s generalizing r s' with
  | nil =>
    obtain rfl : r = q := h
    cases s' with
    | nil =>
      injection heq with hc ht
      exact ⟨rfl, hc, ht⟩
    | cons d s' =>
      injection heq with hd _
      obtain ⟨hends, -⟩ := h'
      rw [← hd, hc] at hends
      cases hends
  | cons d s ih =>
    obtain ⟨hends, r₁, hread, h⟩ := h
    cases s' with
    | nil =>
      obtain rfl : r = q' := h'
      injection heq with hd _
      rw [hd, hc'] at hends
      cases hends
    | cons d' s' =>
      injection heq with hd heq
      subst hd
      obtain ⟨-, r₂, hread', h'⟩ := h'
      obtain rfl : r₁ = r₂ := Option.some.inj (hread.symm.trans hread')
      obtain ⟨rfl, hc, ht⟩ := ih h h' heq
      exact ⟨rfl, hc, ht⟩

theorem joined_cons {item : Item} {items : List Item} (rest : List Char) :
    joined (item :: items) ++ ']' :: rest = item.text ++
      (if items = [] then ']' else ',') ::
        (if items = [] then rest else joined items ++ ']' :: rest) := by
  cases items <;> simp [joined]

/-- Blank text holds no element. -/
theorem Item.Ok.not_blank {item : Item} (h : item.Ok) : ¬ Blank item.text := by
  intro hblank
  obtain ⟨c, rest, hvalue, hc⟩ := h.value.head
  have := hblank c (by simp [Item.text, hvalue])
  rw [hc] at this
  cases this

theorem joined_inj {items others : List Item} {rest rest' : List Char}
    (h : ∀ item ∈ items, item.Ok) (h' : ∀ item ∈ others, item.Ok) (hne : items ≠ [])
    (hne' : others ≠ []) (heq : joined items ++ ']' :: rest = joined others ++ ']' :: rest') :
    items.map (fun item => (item.lead, item.row)) =
      others.map fun item => (item.lead, item.row) := by
  induction items generalizing others with
  | nil => exact absurd rfl hne
  | cons item items ih =>
    obtain ⟨other, others, rfl⟩ := List.exists_cons_of_ne_nil hne'
    obtain ⟨hitem, hitems⟩ := List.forall_mem_cons.1 h
    obtain ⟨hother, hothers⟩ := List.forall_mem_cons.1 h'
    have hends (l : List Item) : (outside 0).ends (if l = [] then ']' else ',') = true := by
      split <;> rfl
    rw [joined_cons, joined_cons] at heq
    obtain ⟨htext, hmark, hrest⟩ :=
      hitem.passes.first_end (hends items) hother.passes (hends others) heq
    obtain ⟨hlead, hrow⟩ := hitem.text_inj hother htext
    have hboth : items = [] ↔ others = [] := by
      by_cases h₁ : items = [] <;> by_cases h₂ : others = [] <;> simp [h₁, h₂] at hmark ⊢
    rw [List.map_cons, List.map_cons, hlead, hrow]
    by_cases hlast : items = []
    · rw [hlast, hboth.1 hlast]
    · have hlast' := mt hboth.2 hlast
      rw [if_neg hlast, if_neg hlast'] at hrest
      rw [ih hitems hothers hlast hlast' hrest]

theorem Listing.text_inj {a b : Listing} (ha : a.Ok) (hb : b.Ok) (h : a.text = b.text) :
    a.before = b.before ∧ a.items.map (fun item => (item.lead, item.row)) =
      b.items.map fun item => (item.lead, item.row) := by
  have hbefore : a.before = b.before := by
    have := congrArg (List.takeWhile isBlank) h
    rwa [Listing.text, Listing.text, takeWhile_blank ha.before (by decide),
      takeWhile_blank hb.before (by decide)] at this
  refine ⟨hbefore, ?_⟩
  rw [Listing.text, Listing.text, hbefore] at h
  have h := List.tail_eq_of_cons_eq (List.append_cancel_left h)
  -- an array of no elements and one with elements do not look alike
  have hempty {a b : Listing} (ha : a.Ok) (hb : b.Ok) (hnil : a.items = []) (hne : b.items ≠ [])
      (h : a.body ++ ']' :: a.after = b.body ++ ']' :: b.after) : False := by
    obtain ⟨item, items, hcons⟩ := List.exists_cons_of_ne_nil hne
    have hok := hb.items item (by simp [hcons])
    have hinner : a.body = a.inner := if_pos hnil
    have hbody : b.body = joined (item :: items) := by rw [Listing.body, if_neg hne, hcons]
    rw [hinner, hbody, joined_cons] at h
    have hends : (outside 0).ends (if items = [] then ']' else ',') = true := by split <;> rfl
    obtain ⟨htext, -⟩ := ha.inner.passes.first_end rfl hok.passes hends h
    exact hok.not_blank (htext ▸ ha.inner)
  by_cases hnil : a.items = [] <;> by_cases hnil' : b.items = []
  · rw [hnil, hnil']
  · exact (hempty ha hb hnil hnil' h).elim
  · exact (hempty hb ha hnil' hnil h.symm).elim
  · rw [Listing.body, Listing.body, if_neg hnil, if_neg hnil'] at h
    exact joined_inj ha.items hb.items hnil hnil' h

end Foxhole.Json
