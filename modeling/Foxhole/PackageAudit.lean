import Foxhole.Address
import Foxhole.Lib.Check
import Foxhole.Lib.Keyed
import Mathlib.Data.List.AList
import Mathlib.Data.List.Forall2

/-! What apk was allowed to do against what it did: `package_delta` and `simulation` of
update-model.uc, `purge_only` of engine-model.uc. -/
namespace Foxhole.PackageAudit
open Check Text Address

/-- A row of a package map is an object, so it counts as true and `%J` never prints it as null. -/
structure Row where
  name : Field Text
  json : Text
  isObject : json.head? = some '\x7b'

/-- An object whose members are rows by name. -/
abbrev Packages (α : Type) := AList fun _ : Text => α

/-- What is read of a row where its name and its version are texts. -/
structure Package where
  name : Text
  version : Text
deriving DecidableEq

def client : Text := "foxhole-openwrt-client".toList

def nullJson : Text := "null".toList

/-- `sprintf('%J')` of a row, or of the member that is not there. -/
def printed (row : Option Row) : Text := row.elim nullJson Row.json

def same (a b : Option Row) : Bool := printed a = printed b

/-- The first loop of `package_delta`. -/
def allow (before : Packages Row) (wanted : Packages Row) (row : Row) :
    Except Err (Packages Row) :=
  match row.name with
  | .value name => do
    require (wanted.lookup name = none ∧ (before.lookup name = none ∨ name = client))
      .updatePackageVerificationFailed
    return wanted.insert name row
  | _ => throw .updatePackageVerificationFailed

def packageDelta (before after : Packages Row) (allowed : List Row) : Except Err Unit := do
  let wanted ← allowed.foldlM (allow before) ∅
  before.entries.forM fun ⟨name, row⟩ =>
    require (same (after.lookup name) ((wanted.lookup name).getD row))
      .updatePackageVerificationFailed
  after.entries.forM fun ⟨name, row⟩ =>
    require (before.lookup name ≠ none ∨ same row (wanted.lookup name))
      .updatePackageVerificationFailed
  wanted.entries.forM fun ⟨name, row⟩ =>
    require (same (after.lookup name) row) .updatePackageVerificationFailed

/-- What the expressions of `simulation` and `purge_only` pick from a line. -/
structure Announcement where
  number : Text
  total : Text
  verb : Text
  name : Text
  version : Text
deriving DecidableEq

def isNameChar (c : Char) : Bool := isAlnum c || c ∈ ['_', '.', '+', '-']

/-- `[a-zA-Z0-9][a-zA-Z0-9_.+-]*` -/
def packageName : Text → Bool
  | c :: rest => isAlnum c && rest.all isNameChar
  | [] => false

/-- `[0-9]+` -/
def digits (t : Text) : Bool := t ≠ [] && t.all isDigit

/-- `[^()]+` -/
def plainVersion (t : Text) : Bool := t ≠ [] && t.all fun c => c ≠ '(' && c ≠ ')'

/-- The text in front of the first such character, and the text behind it. -/
def cut (c : Char) (t : Text) : Option (Text × Text) :=
  match t.dropWhile (· ≠ c) with
  | _ :: rest => some (t.takeWhile (· ≠ c), rest)
  | [] => none

/-- `^\([ ]*([0-9]+)\/([0-9]+)\) (verb|verb) ([a-zA-Z0-9][a-zA-Z0-9_.+-]*) \(([^()]+)\)$` -/
def announcement (verbs : List Text) (line : Text) : Option Announcement := do
  let rest ← line.dropPrefix? ['(']
  let (number, rest) ← cut '/' (rest.dropWhile (· = ' '))
  let (total, rest) ← cut ')' rest
  let rest ← rest.dropPrefix? [' ']
  let (verb, rest) ← cut ' ' rest
  let (name, rest) ← cut ' ' rest
  let rest ← rest.dropPrefix? ['(']
  let version ← rest.dropSuffix? [')']
  if digits number && digits total && verb ∈ verbs && packageName name &&
      plainVersion version then
    some ⟨number, total, verb, name, version⟩
  else none

/-- The line starts with a bracket once trimmed. -/
def opens (line : Text) : Bool := (trim line).head? = some '('

/-- The variables of the loops over the lines. -/
structure Account where
  seen : List Text
  count : ℕ
deriving DecidableEq

/-- A line that starts with a bracket. -/
def account (verbs : List Text) (total : ℕ) (due : Announcement → Bool) (state : Account)
    (line : Text) : Option Account := do
  let found ← announcement verbs (trim line)
  if found.name ∉ state.seen ∧ decimalValue found.number = state.count + 1 ∧
      decimalValue found.total = total ∧ due found then
    some ⟨state.seen ++ [found.name], state.count + 1⟩
  else none

def installing : Text := "Installing".toList
def upgrading : Text := "Upgrading".toList
def purging : Text := "Purging".toList
def arrow : Text := " -> ".toList

/-- What `simulation` asks of the package of a line. -/
def dueSimulated (before wanted : Packages Package) (found : Announcement) : Bool :=
  (wanted.lookup found.name).any fun row =>
    match before.lookup found.name with
    | some old => found.name = client && found.verb = upgrading &&
        found.version = old.version ++ arrow ++ row.version
    | none => found.verb = installing && found.version = row.version

def simulation (raw : Text) (before : Packages Package) (allowed : List Package) :
    Except Err Unit :=
  let wanted : Packages Package :=
    allowed.foldl (fun wanted row => wanted.insert row.name row) ∅
  let state := (raw.splitOn '\n').foldlM (fun state line =>
    if opens line then
      account [installing, upgrading] allowed.length (dueSimulated before wanted) state line
    else some state) ⟨[], 0⟩
  match state with
  | some state => require (state.count = allowed.length) .updatePackageVerificationFailed
  | none => throw .updatePackageVerificationFailed

/-- What `purge_only` asks of the package of a line. -/
def duePurged (names : List Text) (installed : Packages Package) (found : Announcement) : Bool :=
  found.name ∈ names &&
    (installed.lookup found.name).any fun row => row.version = found.version

def purgeOnly (raw : Text) (names : List Text) (installed : Packages Package) : Bool :=
  if raw.length > 8388608 || names = [] then false
  else
    let state := (raw.splitOn '\n').foldlM (fun state line =>
      if trim line = [] then some state
      else if opens line then
        account [purging] names.length (duePurged names installed) state line
      else some state) ⟨[], 0⟩
    state.any fun state => state.count = names.length


/-! The expression and its fields. -/

variable {c : Char} {t a b line : Text} {verbs : List Text} {found : Announcement}

theorem dropPrefix_eq_some : t.dropPrefix? a = some b ↔ t = a ++ b := by
  simp [List.dropPrefix?_eq_some_iff]

theorem dropSuffix_eq_some : t.dropSuffix? b = some a ↔ t = a ++ b := by
  simp [List.dropSuffix?_eq_some_iff]

theorem cut_eq_some : cut c t = some (a, b) ↔ t = a ++ c :: b ∧ c ∉ a := by
  have hsplit := List.takeWhile_append_dropWhile (p := (· ≠ c)) (l := t)
  unfold cut
  constructor
  · intro h
    split at h
    · next d rest hd =>
      obtain ⟨rfl, rfl⟩ := Prod.mk.inj (Option.some.inj h)
      have hdc : d = c := by
        have := List.head?_dropWhile_not (· ≠ c) t
        rw [hd] at this
        simpa using this
      rw [hd, hdc] at hsplit
      exact ⟨hsplit.symm, fun hc => by simpa using List.mem_takeWhile_imp hc⟩
    · cases h
  · rintro ⟨rfl, hc⟩
    have ha : ∀ d ∈ a, decide (d ≠ c) = true := fun d hd =>
      decide_eq_true fun he => hc (he ▸ hd)
    rw [List.dropWhile_append_of_pos ha, List.takeWhile_append_of_pos ha]
    simp

/-- A line of `apk --simulate`, with blanks in front of the number. -/
def Announcement.print (found : Announcement) (pad : Text) : Text :=
  '(' :: (pad ++ (found.number ++ '/' :: (found.total ++ ')' :: ' ' :: (found.verb ++
    ' ' :: (found.name ++ ' ' :: '(' :: (found.version ++ [')']))))))

structure Announcement.Fine (verbs : List Text) (found : Announcement) : Prop where
  number : digits found.number = true
  total : digits found.total = true
  verb : found.verb ∈ verbs
  name : packageName found.name = true
  version : plainVersion found.version = true

theorem digits_iff : digits t = true ↔ t ≠ [] ∧ ∀ c ∈ t, isDigit c = true := by
  simp [digits]

theorem digits_notMem (h : digits t = true) (hc : isDigit c = false) : c ∉ t := fun hm => by
  simpa [hc] using (digits_iff.1 h).2 c hm

theorem packageName_notMem (h : packageName t = true) (hc : isNameChar c = false) : c ∉ t := by
  intro hm
  cases t with
  | nil => cases hm
  | cons d rest =>
    simp only [packageName, Bool.and_eq_true, List.all_eq_true] at h
    rcases List.mem_cons.1 hm with rfl | hm
    · simp [isNameChar, h.1] at hc
    · simp [h.2 c hm] at hc

/-- Blanks in front of a number are all dropped. -/
theorem dropWhile_pad {pad : Text} (hpad : ∀ c ∈ pad, c = ' ') (h : digits a = true) :
    (pad ++ (a ++ b)).dropWhile (· = ' ') = a ++ b := by
  have hall : ∀ c ∈ pad, decide (c = ' ') = true := fun c hc => decide_eq_true (hpad c hc)
  rw [List.dropWhile_append_of_pos hall]
  obtain ⟨hne, hdig⟩ := digits_iff.1 h
  obtain ⟨d, rest, rfl⟩ := List.exists_cons_of_ne_nil hne
  have hd := hdig d List.mem_cons_self
  rw [List.cons_append, List.dropWhile_cons_of_neg]
  intro he
  rw [of_decide_eq_true he] at hd
  cases hd

/-- What is picked is what is written, and nothing else is picked from a line. -/
theorem announcement_iff (hverbs : ∀ verb ∈ verbs, ' ' ∉ verb) :
    announcement verbs line = some found ↔
      found.Fine verbs ∧ ∃ pad, (∀ c ∈ pad, c = ' ') ∧ line = found.print pad := by
  constructor
  · intro h
    simp only [announcement, Option.bind_eq_bind, Option.bind_eq_some_iff, Prod.exists,
      dropPrefix_eq_some, dropSuffix_eq_some, cut_eq_some] at h
    obtain ⟨rest, rfl, number, rest1, ⟨h1, -⟩, total, rest2, ⟨rfl, -⟩, rest3, rfl, verb, rest4,
      ⟨rfl, -⟩, name, rest5, ⟨rfl, -⟩, rest6, rfl, version, rfl, h⟩ := h
    split at h
    · next hfine =>
      simp only [Bool.and_eq_true, decide_eq_true_eq] at hfine
      obtain ⟨⟨⟨⟨hn, ht⟩, hv⟩, hname⟩, hversion⟩ := hfine
      cases Option.some.inj h
      refine ⟨⟨hn, ht, hv, hname, hversion⟩, rest.takeWhile (· = ' '), ?_, ?_⟩
      · intro c hc
        simpa using List.mem_takeWhile_imp hc
      · have := List.takeWhile_append_dropWhile (p := (· = ' ')) (l := rest)
        rw [h1] at this
        exact congrArg ('(' :: ·) this.symm
    · cases h
  · rintro ⟨hfine, pad, hpad, rfl⟩
    have hdrop := dropWhile_pad (b := '/' :: (found.total ++ ')' :: ' ' :: (found.verb ++
      ' ' :: (found.name ++ ' ' :: '(' :: (found.version ++ [')']))))) hpad hfine.number
    simp only [announcement, Option.bind_eq_bind, Option.bind_eq_some_iff, Prod.exists,
      dropPrefix_eq_some, dropSuffix_eq_some, cut_eq_some]
    refine ⟨_, rfl, _, _, ⟨hdrop, digits_notMem hfine.number (by decide)⟩, _, _,
      ⟨rfl, digits_notMem hfine.total (by decide)⟩, _, rfl, _, _, ⟨rfl, hverbs _ hfine.verb⟩, _, _,
      ⟨rfl, packageName_notMem hfine.name (by decide)⟩, _, rfl, _, rfl, ?_⟩
    rw [if_pos]
    simp [hfine.number, hfine.total, hfine.verb, hfine.name, hfine.version]


/-! One line after the other: the packages of the lines are as many different names. -/

variable {total i : ℕ} {due : Announcement → Bool} {state final : Account} {name : Text}
  {names lines : List Text} {raw : Text}

/-- A line as the loops ask for it. -/
def Says (verbs : List Text) (total : ℕ) (due : Announcement → Bool) (i : ℕ) (name line : Text) :
    Prop :=
  ∃ found, announcement verbs (trim line) = some found ∧ found.name = name ∧
    decimalValue found.number = i ∧ decimalValue found.total = total ∧ due found = true

theorem account_eq_some : account verbs total due state line = some final ↔
    ∃ name ∉ state.seen, Says verbs total due (state.count + 1) name line ∧
      final = ⟨state.seen ++ [name], state.count + 1⟩ := by
  simp only [account, Option.bind_eq_bind, Option.bind_eq_some_iff]
  constructor
  · rintro ⟨found, hfound, h⟩
    split at h
    · next hall =>
      obtain ⟨hnew, hnumber, htotal, hdue⟩ := hall
      exact ⟨found.name, hnew, ⟨found, hfound, rfl, hnumber, htotal, hdue⟩,
        (Option.some.inj h).symm⟩
    · cases h
  · rintro ⟨_, hnew, ⟨found, hfound, rfl, hnumber, htotal, hdue⟩, rfl⟩
    exact ⟨found, hfound, if_pos ⟨hnew, hnumber, htotal, hdue⟩⟩

/-- A round of the loops. -/
def round (verbs : List Text) (total : ℕ) (due : Announcement → Bool) (state : Account)
    (line : Text) : Option Account :=
  if opens line then account verbs total due state line else some state

theorem round_run : lines.foldlM (round verbs total due) state = some final ↔
    ∃ names, final = ⟨state.seen ++ names, state.count + names.length⟩ ∧ names.Nodup ∧
      (∀ name ∈ names, name ∉ state.seen) ∧
      List.Forall₂ (fun item line => Says verbs total due (item.2 + 1) item.1 line)
        (names.zipIdx state.count) (lines.filter opens) := by
  induction lines generalizing state with
  | nil =>
    simp only [List.foldlM_nil, List.filter_nil, List.forall₂_nil_right_iff]
    constructor
    · intro h
      cases Option.some.inj h
      exact ⟨[], by simp, by simp, by simp, rfl⟩
    · rintro ⟨names, rfl, -, -, hz⟩
      obtain rfl : names = [] := by simpa using congrArg List.length hz
      simp
  | cons line lines ih =>
    rw [List.foldlM_cons, Option.bind_eq_bind, Option.bind_eq_some_iff]
    by_cases ho : opens line = true
    · simp only [round, if_pos ho, List.filter_cons_of_pos ho, account_eq_some]
      constructor
      · rintro ⟨_, ⟨name, hnew, hsaid, rfl⟩, hrun⟩
        obtain ⟨names, rfl, hnodup, hseen, hall⟩ := ih.1 hrun
        refine ⟨name :: names, ?_, List.nodup_cons.2 ⟨fun hm => ?_, hnodup⟩, ?_, ?_⟩
        · simp [Nat.add_comm, Nat.add_left_comm]
        · exact hseen name hm (by simp)
        · intro n hn
          rcases List.mem_cons.1 hn with rfl | hn
          · exact hnew
          · exact fun hs => hseen n hn (List.mem_append_left _ hs)
        · exact List.Forall₂.cons hsaid hall
      · rintro ⟨_ | ⟨name, names⟩, rfl, hnodup, hseen, hall⟩
        · cases hall
        · obtain ⟨hsaid, hall⟩ := List.forall₂_cons.1 hall
          obtain ⟨hnot, hnodup⟩ := List.nodup_cons.1 hnodup
          refine ⟨_, ⟨name, hseen name List.mem_cons_self, hsaid, rfl⟩,
            ih.2 ⟨names, ?_, hnodup, ?_, hall⟩⟩
          · simp [Nat.add_comm, Nat.add_left_comm]
          · intro n hn hs
            rcases List.mem_append.1 hs with hs | hs
            · exact hseen n (List.mem_cons_of_mem _ hn) hs
            · exact hnot (List.mem_singleton.1 hs ▸ hn)
    · simp only [round, if_neg ho, List.filter_cons_of_neg ho]
      constructor
      · rintro ⟨_, h, hrun⟩
        cases Option.some.inj h
        exact ih.1 hrun
      · exact fun h => ⟨state, rfl, ih.2 h⟩

/-- The count comes to the number of packages exactly when there is one line for each. -/
theorem round_all (hnodup : names.Nodup) (hdue : ∀ found, due found = true → found.name ∈ names) :
    (∃ final, lines.foldlM (round verbs total due) ⟨[], 0⟩ = some final ∧
      final.count = names.length) ↔
    ∃ order : List Text, order.Perm names ∧
      List.Forall₂ (fun item line => Says verbs total due (item.2 + 1) item.1 line)
        order.zipIdx (lines.filter opens) := by
  simp only [round_run]
  constructor
  · rintro ⟨_, ⟨order, rfl, hn, -, hall⟩, hcount⟩
    have hsub : order ⊆ names := by
      intro name hname
      obtain ⟨k, hk, rfl⟩ := List.mem_iff_getElem.1 hname
      have hz : k < order.zipIdx.length := by simpa using hk
      obtain ⟨hlen, hget⟩ := List.forall₂_iff_get.1 hall
      obtain ⟨found, -, hname, -, -, hd⟩ := hget k hz (hlen ▸ hz)
      have hmem := hdue found hd
      rw [hname] at hmem
      simpa using hmem
    have hle : names.length ≤ order.length := by
      have : 0 + order.length = names.length := hcount
      omega
    exact ⟨order, (List.subperm_of_subset hn hsub).perm_of_length_le hle, hall⟩
  · rintro ⟨order, hperm, hall⟩
    refine ⟨_, ⟨order, rfl, hperm.nodup_iff.2 hnodup, by simp, hall⟩, ?_⟩
    simpa using hperm.length_eq


/-! What a transcript says, in the terms of its lines. -/

/-- The line reports, as number `i` of `total`, that this is done to this version of `name`. -/
def Reports (i total : ℕ) (verb name version line : Text) : Prop :=
  ∃ first second pad, digits first = true ∧ digits second = true ∧ (∀ c ∈ pad, c = ' ') ∧
    decimalValue first = i ∧ decimalValue second = total ∧
    trim line = (Announcement.mk first second verb name version).print pad

/-- The lines with a bracket are one for each name, numbered in their order, and say what is
dictated. -/
def Transcript (raw : Text) (names : List Text) (dictates : Text → Text → Text → Prop) : Prop :=
  ∃ order : List Text, order.Perm names ∧
    List.Forall₂ (fun item line => ∃ verb version, dictates item.1 verb version ∧
      Reports (item.2 + 1) names.length verb item.1 version line)
      order.zipIdx ((raw.splitOn '\n').filter opens)

def PlainVersion (version : Text) : Prop := version ≠ [] ∧ ∀ c ∈ version, c ≠ '(' ∧ c ≠ ')'

instance : Decidable (PlainVersion t) := inferInstanceAs (Decidable (_ ∧ _))

theorem plainVersion_iff : plainVersion t = true ↔ PlainVersion t := by
  simp [plainVersion, PlainVersion]

theorem PlainVersion.append (ha : PlainVersion a) (hb : PlainVersion b) :
    PlainVersion (a ++ b) := by
  refine ⟨fun h => ha.1 (List.append_eq_nil_iff.1 h).1, fun c hc => ?_⟩
  rcases List.mem_append.1 hc with hc | hc
  · exact ha.2 c hc
  · exact hb.2 c hc

theorem plain_arrow : PlainVersion arrow := by decide

theorem says_iff {dictates : Text → Text → Text → Prop} (hverbs : ∀ verb ∈ verbs, ' ' ∉ verb)
    (hdue : ∀ found : Announcement, found.verb ∈ verbs →
      (due found = true ↔ dictates found.name found.verb found.version))
    (hfine : ∀ name verb version, dictates name verb version →
      verb ∈ verbs ∧ packageName name = true ∧ PlainVersion version) :
    Says verbs total due i name line ↔
      ∃ verb version, dictates name verb version ∧ Reports i total verb name version line := by
  constructor
  · rintro ⟨found, hfound, rfl, rfl, rfl, hd⟩
    obtain ⟨hf, pad, hpad, hline⟩ := (announcement_iff hverbs).1 hfound
    exact ⟨found.verb, found.version, (hdue found hf.verb).1 hd, found.number, found.total,
      pad, hf.number,
      hf.total, hpad, rfl, rfl, hline⟩
  · rintro ⟨verb, version, hd, first, second, pad, hfirst, hsecond, hpad, rfl, rfl, hline⟩
    obtain ⟨hverb, hname, hversion⟩ := hfine name verb version hd
    exact ⟨⟨first, second, verb, name, version⟩, (announcement_iff hverbs).2
      ⟨⟨hfirst, hsecond, hverb, hname, plainVersion_iff.2 hversion⟩, pad, hpad, hline⟩,
      rfl, rfl, rfl,
      (hdue _ hverb).2 hd⟩

/-- The loop against the transcript it asks for. -/
theorem transcript_iff {dictates : Text → Text → Text → Prop} (hnodup : names.Nodup)
    (hverbs : ∀ verb ∈ verbs, ' ' ∉ verb)
    (hmem : ∀ found, due found = true → found.name ∈ names)
    (hdue : ∀ found : Announcement, found.verb ∈ verbs →
      (due found = true ↔ dictates found.name found.verb found.version))
    (hfine : ∀ name verb version, dictates name verb version →
      verb ∈ verbs ∧ packageName name = true ∧ PlainVersion version) :
    (∃ final, (raw.splitOn '\n').foldlM (round verbs names.length due) ⟨[], 0⟩ = some final ∧
      final.count = names.length) ↔ Transcript raw names dictates := by
  rw [round_all hnodup hmem, Transcript]
  simp only [says_iff hverbs hdue hfine]

/-! Maps that are written to row by row. -/

/-- With keys of their own the rows are all found again. -/
theorem lookup_foldl_insert {α β : Type} {key : β → Text} {value : β → α} {rows : List β}
    (hn : (rows.map key).Nodup) (m : Packages α) (name : Text) :
    (rows.foldl (fun m row => m.insert (key row) (value row)) m).lookup name =
      ((rows.find? fun row => key row = name).map value).or (m.lookup name) := by
  induction rows generalizing m with
  | nil => rfl
  | cons row rows ih =>
    obtain ⟨hnot, hn⟩ := List.nodup_cons.1 hn
    rw [List.foldl_cons, ih hn]
    by_cases hk : key row = name
    · have hnone : (rows.find? fun row => key row = name) = none := by
        rw [List.find?_eq_none]
        intro other ho he
        refine hnot (List.mem_map.2 ⟨other, ho, ?_⟩)
        rw [of_decide_eq_true he, hk]
      rw [hnone, List.find?_cons_of_pos (by simpa using hk), ← hk, AList.lookup_insert]
      rfl
    · rw [List.find?_cons_of_neg (by simpa using hk), AList.lookup_insert_ne (Ne.symm hk)]

variable {before after installed : Packages Package} {allowed : List Package} {row old : Package}

/-- The rows of `wanted` are the allowed ones. -/
theorem lookup_wanted (hn : (allowed.map Package.name).Nodup) :
    (allowed.foldl (fun wanted row => wanted.insert row.name row)
      (∅ : Packages Package)).lookup name = some row ↔ row ∈ allowed ∧ row.name = name := by
  have hfound : (allowed.foldl (fun wanted row => wanted.insert row.name row)
      (∅ : Packages Package)).lookup name =
        ((allowed.find? fun row => row.name = name).map fun row => row).or none :=
    lookup_foldl_insert hn ∅ name
  rw [hfound, Option.map_id', Option.or_none]
  constructor
  · intro h
    exact ⟨List.mem_of_find?_eq_some h, by simpa using List.find?_some h⟩
  · rintro ⟨hrow, rfl⟩
    exact Keyed.find?_of_mem hn hrow (by simp) (by simp)

/-! `simulation` and `purge_only`. -/

/-- What the rows of a package ask of its line: a new package is installed, the client goes from
its version to the new one, and no other package that is there may have a line. -/
def Simulates (before : Packages Package) (allowed : List Package) (name verb version : Text) :
    Prop :=
  ∃ row ∈ allowed, row.name = name ∧
    match before.lookup name with
    | some old => name = client ∧ verb = upgrading ∧ version = old.version ++ arrow ++ row.version
    | none => verb = installing ∧ version = row.version

def Purges (names : List Text) (installed : Packages Package) (name verb version : Text) : Prop :=
  name ∈ names ∧ verb = purging ∧ ∃ row, installed.lookup name = some row ∧ version = row.version

theorem simulation_iff (hnodup : (allowed.map Package.name).Nodup)
    (hnames : ∀ row ∈ allowed, packageName row.name = true ∧ PlainVersion row.version)
    (hbefore : ∀ name old, before.lookup name = some old → PlainVersion old.version) :
    simulation raw before allowed = .ok () ↔
      Transcript raw (allowed.map Package.name) (Simulates before allowed) := by
  let wanted : Packages Package :=
    allowed.foldl (fun wanted row => wanted.insert row.name row) ∅
  have hwanted {name row} : wanted.lookup name = some row ↔ row ∈ allowed ∧ row.name = name :=
    lookup_wanted hnodup
  have hdue : ∀ found : Announcement, dueSimulated before wanted found = true ↔
      Simulates before allowed found.name found.verb found.version := by
    intro found
    simp only [dueSimulated, Simulates, Option.any_eq_true, hwanted]
    constructor
    · rintro ⟨row, ⟨hrow, hname⟩, h⟩
      refine ⟨row, hrow, hname, ?_⟩
      cases hb : before.lookup found.name <;> simpa [hb, and_assoc] using h
    · rintro ⟨row, hrow, hname, h⟩
      refine ⟨row, ⟨hrow, hname⟩, ?_⟩
      cases hb : before.lookup found.name <;> simpa [hb, and_assoc] using h
  have hmem : ∀ found, dueSimulated before wanted found = true →
      found.name ∈ allowed.map Package.name := by
    intro found hd
    obtain ⟨row, hrow, hname, -⟩ := (hdue found).1 hd
    exact List.mem_map.2 ⟨row, hrow, hname⟩
  have hfine : ∀ name verb version, Simulates before allowed name verb version →
      verb ∈ [installing, upgrading] ∧ packageName name = true ∧ PlainVersion version := by
    rintro name verb version ⟨row, hrow, rfl, h⟩
    obtain ⟨hname, hversion⟩ := hnames row hrow
    cases hb : before.lookup row.name with
    | none =>
      obtain ⟨rfl, rfl⟩ : verb = installing ∧ version = row.version := by simpa [hb] using h
      exact ⟨by decide, hname, hversion⟩
    | some old =>
      obtain ⟨-, rfl, rfl⟩ : row.name = client ∧ verb = upgrading ∧
        version = old.version ++ arrow ++ row.version := by simpa [hb] using h
      exact ⟨by decide, hname, ((hbefore _ old hb).append plain_arrow).append hversion⟩
  have hcode : simulation raw before allowed = .ok () ↔
      ∃ final, (raw.splitOn '\n').foldlM (round [installing, upgrading] allowed.length
        (dueSimulated before wanted)) ⟨[], 0⟩ = some final ∧ final.count = allowed.length := by
    simp only [simulation]
    change (match List.foldlM (round [installing, upgrading] allowed.length
      (dueSimulated before wanted)) ⟨[], 0⟩ (raw.splitOn '\n') with
      | some state => _
      | none => _) = _ ↔ _
    cases (raw.splitOn '\n').foldlM (round [installing, upgrading] allowed.length
      (dueSimulated before wanted)) ⟨[], 0⟩ <;> simp
  rw [← List.length_map Package.name] at hcode
  exact hcode.trans (transcript_iff hnodup (by decide) hmem (fun found _ => hdue found) hfine)

theorem purgeOnly_iff {names : List Text} (hne : names ≠ []) (hnodup : names.Nodup)
    (hnames : ∀ name ∈ names, packageName name = true)
    (hinstalled : ∀ name row, installed.lookup name = some row → PlainVersion row.version)
    (hraw : raw.length ≤ 8388608) :
    purgeOnly raw names installed = true ↔ Transcript raw names (Purges names installed) := by
  have hdue : ∀ found : Announcement, found.verb ∈ [purging] →
      (duePurged names installed found = true ↔
        Purges names installed found.name found.verb found.version) := by
    intro found hverb
    simp only [duePurged, Purges, Bool.and_eq_true, decide_eq_true_eq, Option.any_eq_true]
    constructor
    · rintro ⟨hname, row, hrow, hversion⟩
      exact ⟨hname, List.mem_singleton.1 hverb, row, hrow, hversion.symm⟩
    · rintro ⟨hname, -, row, hrow, hversion⟩
      exact ⟨hname, row, hrow, hversion.symm⟩
  have hmem : ∀ found, duePurged names installed found = true → found.name ∈ names := by
    intro found hd
    simp only [duePurged, Bool.and_eq_true, decide_eq_true_eq] at hd
    exact hd.1
  have hfine : ∀ name verb version, Purges names installed name verb version →
      verb ∈ [purging] ∧ packageName name = true ∧ PlainVersion version := by
    rintro name verb version ⟨hname, rfl, row, hrow, rfl⟩
    exact ⟨by decide, hnames name hname, hinstalled name row hrow⟩
  have hround : (fun state line => if trim line = [] then some state else if opens line then
      account [purging] names.length (duePurged names installed) state line else some state) =
      round [purging] names.length (duePurged names installed) := by
    funext state line
    by_cases ht : trim line = []
    · simp [ht, round, opens]
    · simp [ht, round]
  have hsmall : (decide (raw.length > 8388608) || decide (names = [])) = false := by
    have hlen : ¬ raw.length > 8388608 := by omega
    simp [hne, hlen]
  have hcode : purgeOnly raw names installed = true ↔
      ∃ final, (raw.splitOn '\n').foldlM (round [purging] names.length
        (duePurged names installed)) ⟨[], 0⟩ = some final ∧ final.count = names.length := by
    simp only [purgeOnly, hsmall, hround, Bool.false_eq_true, if_false, Option.any_eq_true,
      decide_eq_true_eq]
  exact hcode.trans (transcript_iff hnodup (by decide) hmem hdue hfine)

/-! `package_delta`. -/

variable {m m' w : Packages Row} {rows : List Row}

theorem allow_eq_ok {row : Row} : allow m w row = .ok m' ↔ ∃ name, row.name = .value name ∧
    w.lookup name = none ∧ (m.lookup name = none ∨ name = client) ∧ m' = w.insert name row := by
  unfold allow
  split
  · next name hname =>
    constructor
    · intro h
      obtain ⟨_, hreq, hret⟩ := bind_eq_ok.1 h
      obtain ⟨hnew, hclient⟩ := require_eq_ok.1 hreq
      exact ⟨name, hname, hnew, hclient, (pure_eq_ok.1 hret).symm⟩
    · rintro ⟨other, hother, hnew, hclient, rfl⟩
      obtain rfl : name = other := Field.value.inj (hname.symm.trans hother)
      exact bind_eq_ok.2 ⟨(), require_eq_ok.2 ⟨hnew, hclient⟩, rfl⟩
  · next hne =>
    simp only [throw_ne_ok, false_iff]
    rintro ⟨name, hname, -⟩
    exact hne name hname

/-- The first loop: the names are texts, each once, and only the client is there before. -/
theorem allow_run : rows.foldlM (allow m) w = .ok m' ↔ ∃ names : List Text,
    rows.map Row.name = names.map Field.value ∧ names.Nodup ∧
      (∀ name ∈ names, w.lookup name = none ∧ (m.lookup name = none ∨ name = client)) ∧
      m' = (names.zip rows).foldl (fun m item => m.insert item.1 item.2) w := by
  induction rows generalizing w with
  | nil =>
    constructor
    · intro h
      exact ⟨[], rfl, List.nodup_nil, by simp, (pure_eq_ok.1 h).symm⟩
    · rintro ⟨names, hn, -, -, rfl⟩
      obtain rfl : names = [] := by simpa using hn.symm
      rfl
  | cons row rows ih =>
    rw [List.foldlM_cons, bind_eq_ok]
    simp only [allow_eq_ok]
    constructor
    · rintro ⟨_, ⟨name, hname, hnew, hclient, rfl⟩, hrun⟩
      obtain ⟨names, hnames, hnodup, hall, rfl⟩ := ih.1 hrun
      have hnot : name ∉ names := fun hm => by
        have := (hall name hm).1
        rw [AList.lookup_insert] at this
        cases this
      refine ⟨name :: names, by simp [hname, hnames], List.nodup_cons.2 ⟨hnot, hnodup⟩, ?_, rfl⟩
      intro n hn
      rcases List.mem_cons.1 hn with rfl | hn
      · exact ⟨hnew, hclient⟩
      · have hne : n ≠ name := fun h => hnot (h ▸ hn)
        simpa [AList.lookup_insert_ne hne] using hall n hn
    · rintro ⟨_ | ⟨name, names⟩, hnames, hnodup, hall, rfl⟩
      · cases hnames
      · obtain ⟨hname, hnames⟩ := List.cons.inj hnames
        obtain ⟨hnot, hnodup⟩ := List.nodup_cons.1 hnodup
        obtain ⟨hnew, hclient⟩ := hall name List.mem_cons_self
        refine ⟨_, ⟨name, hname, hnew, hclient, rfl⟩, ih.2 ⟨names, hnames, hnodup, ?_, rfl⟩⟩
        intro n hn
        have hne : n ≠ name := fun h => hnot (h ▸ hn)
        simpa [AList.lookup_insert_ne hne] using hall n (List.mem_cons_of_mem _ hn)

theorem find?_zip {names : List Text} (h : rows.map Row.name = names.map Field.value) :
    ((names.zip rows).find? fun item => item.1 = name).map Prod.snd =
      rows.find? fun row => row.name = .value name := by
  induction rows generalizing names with
  | nil => simp
  | cons row rows ih =>
    cases names with
    | nil => cases h
    | cons first names =>
      obtain ⟨hname, h⟩ := List.cons.inj h
      by_cases he : first = name
      · simp [hname, he]
      · simpa [hname, he] using ih h

/-- What the map holds of a name once the allowed rows are written over it. -/
def overridden (m : Packages Row) (rows : List Row) (name : Text) : Option Row :=
  (rows.find? fun row => row.name = .value name).or (m.lookup name)

theorem printed_inj {a b : Option Row} :
    printed a = printed b ↔ a.map Row.json = b.map Row.json := by
  have hnull : ∀ row : Row, row.json ≠ nullJson := by
    intro row h
    have := row.isObject
    rw [h] at this
    cases this
  cases a with
  | none =>
    cases b with
    | none => simp
    | some row => simpa [printed] using (hnull row).symm
  | some row =>
    cases b with
    | none => simpa [printed] using hnull row
    | some other => simp [printed]

theorem same_iff {a b : Option Row} : same a b = true ↔ a.map Row.json = b.map Row.json := by
  rw [← printed_inj, same, decide_eq_true_eq]

/-- The three loops behind the first one. -/
theorem loops_iff {before after wanted : Packages Row} :
    ((∀ item ∈ before.entries,
        same (after.lookup item.1) ((wanted.lookup item.1).getD item.2) = true) ∧
      (∀ item ∈ after.entries,
        before.lookup item.1 ≠ none ∨ same item.2 (wanted.lookup item.1) = true) ∧
      ∀ item ∈ wanted.entries, same (after.lookup item.1) item.2 = true) ↔
    ∀ name, (after.lookup name).map Row.json =
      ((wanted.lookup name).or (before.lookup name)).map Row.json := by
  constructor
  · rintro ⟨hbefore, hafter, hwanted⟩ name
    cases hb : before.lookup name with
    | some row =>
      have h := same_iff.1 (hbefore ⟨name, row⟩ (AList.mem_lookup_iff.1 hb))
      cases hw : wanted.lookup name <;> simpa [hw] using h
    | none =>
      rw [Option.or_none]
      cases hw : wanted.lookup name with
      | some row => exact same_iff.1 (hwanted ⟨name, row⟩ (AList.mem_lookup_iff.1 hw))
      | none =>
        cases ha : after.lookup name with
        | none => rfl
        | some row =>
          rcases hafter ⟨name, row⟩ (AList.mem_lookup_iff.1 ha) with h | h
          · exact absurd hb h
          · rw [hw] at h
            exact absurd (same_iff.1 h) (by simp)
  · intro h
    refine ⟨fun ⟨name, row⟩ hitem => ?_, fun ⟨name, row⟩ hitem => ?_, fun ⟨name, row⟩ hitem => ?_⟩
    · have hb : before.lookup name = some row := AList.mem_lookup_iff.2 hitem
      refine same_iff.2 ((h name).trans ?_)
      cases wanted.lookup name <;> simp [hb]
    · have ha : after.lookup name = some row := AList.mem_lookup_iff.2 hitem
      by_cases hb : before.lookup name = none
      · refine Or.inr (same_iff.2 ?_)
        have hname := h name
        rw [ha, hb, Option.or_none] at hname
        exact hname
      · exact Or.inl hb
    · have hw : wanted.lookup name = some row := AList.mem_lookup_iff.2 hitem
      refine same_iff.2 ((h name).trans ?_)
      simp [hw]

theorem packageDelta_iff {before after : Packages Row} :
    packageDelta before after rows = .ok () ↔
      (∃ names : List Text, rows.map Row.name = names.map Field.value ∧ names.Nodup ∧
        ∀ name ∈ names, before.lookup name = none ∨ name = client) ∧
      ∀ name, (after.lookup name).map Row.json = (overridden before rows name).map Row.json := by
  have hwanted {names : List Text} (hnames : rows.map Row.name = names.map Field.value)
      (hn : names.Nodup) (name : Text) :
      ((names.zip rows).foldl (fun m item => m.insert item.1 item.2)
        (∅ : Packages Row)).lookup name = rows.find? fun row => row.name = .value name := by
    have hlen : names.length = rows.length := by
      simpa using (congrArg List.length hnames).symm
    have hkeys : ((names.zip rows).map Prod.fst).Nodup := by
      rwa [List.map_fst_zip hlen.le]
    rw [lookup_foldl_insert hkeys, find?_zip hnames, AList.lookup_empty, Option.or_none]
  unfold packageDelta
  rw [bind_eq_ok]
  constructor
  · rintro ⟨wanted, hrun, h⟩
    obtain ⟨names, hnames, hnodup, hall, rfl⟩ := allow_run.1 hrun
    obtain ⟨_, hbefore, h⟩ := bind_eq_ok.1 h
    obtain ⟨_, hafter, hlast⟩ := bind_eq_ok.1 h
    refine ⟨⟨names, hnames, hnodup, fun name hn => (hall name hn).2⟩, fun name => ?_⟩
    rw [overridden, ← hwanted hnames hnodup name]
    exact loops_iff.1 ⟨fun item hitem => require_eq_ok.1 (forM_eq_ok.1 hbefore item hitem),
      fun item hitem => require_eq_ok.1 (forM_eq_ok.1 hafter item hitem),
      fun item hitem => require_eq_ok.1 (forM_eq_ok.1 hlast item hitem)⟩ name
  · rintro ⟨⟨names, hnames, hnodup, hclient⟩, hover⟩
    refine ⟨_, allow_run.2 ⟨names, hnames, hnodup, fun name hn => ⟨AList.lookup_empty _,
      hclient name hn⟩, rfl⟩, ?_⟩
    obtain ⟨hbefore, hafter, hlast⟩ := loops_iff.2 fun name =>
      (hover name).trans (by rw [overridden, ← hwanted hnames hnodup name])
    exact bind_eq_ok.2 ⟨(), forM_eq_ok.2 fun item hitem => require_eq_ok.2 (hbefore item hitem),
      bind_eq_ok.2 ⟨(), forM_eq_ok.2 fun item hitem => require_eq_ok.2 (hafter item hitem),
        forM_eq_ok.2 fun item hitem => require_eq_ok.2 (hlast item hitem)⟩⟩

/-! The three audits. -/

/-- A set of packages passes exactly when the allowed rows are what has changed; a transcript
passes exactly when its lines are the ones that the packages ask for. -/
theorem package_audit_exact :
    (∀ (before after : Packages Row) (allowed : List Row),
      packageDelta before after allowed = .ok () ↔
        (∃ names : List Text, allowed.map Row.name = names.map Field.value ∧ names.Nodup ∧
          ∀ name ∈ names, before.lookup name = none ∨ name = client) ∧
        ∀ name, (after.lookup name).map Row.json =
          (overridden before allowed name).map Row.json) ∧
    (∀ (raw : Text) (before : Packages Package) (allowed : List Package),
      (allowed.map Package.name).Nodup →
      (∀ row ∈ allowed, packageName row.name = true ∧ PlainVersion row.version) →
      (∀ name old, before.lookup name = some old → PlainVersion old.version) →
      (simulation raw before allowed = .ok () ↔
        Transcript raw (allowed.map Package.name) (Simulates before allowed))) ∧
    ∀ (raw : Text) (names : List Text) (installed : Packages Package),
      names ≠ [] → names.Nodup → (∀ name ∈ names, packageName name = true) →
      (∀ name row, installed.lookup name = some row → PlainVersion row.version) →
      raw.length ≤ 8388608 →
      (purgeOnly raw names installed = true ↔ Transcript raw names (Purges names installed)) :=
  ⟨fun _ _ _ => packageDelta_iff, fun _ _ _ hnodup hnames hbefore =>
    simulation_iff hnodup hnames hbefore, fun _ _ _ hne hnodup hnames hinstalled hraw =>
    purgeOnly_iff hne hnodup hnames hinstalled hraw⟩

/-- The rows of an upgrade that installs a second package and keeps a third. -/
def packageRow (name version : Text) : Row :=
  ⟨.value name, "\x7b".toList ++ name ++ version, rfl⟩

def keptRow : Row := packageRow "base-files".toList "1639".toList

def allowedRows : List Row := [packageRow client "2-r1".toList, packageRow "b".toList "3".toList]

def oldRows : Packages Row := ((∅ : Packages Row).insert client
  (packageRow client "1-r1".toList)).insert "base-files".toList keptRow

def newRows : Packages Row := ((((∅ : Packages Row).insert "b".toList
  (packageRow "b".toList "3".toList)).insert "base-files".toList keptRow).insert client
  (packageRow client "2-r1".toList))

/-- The version of the client, for the map in front of an upgrade. -/
def oldClient : Packages Package := (∅ : Packages Package).insert client ⟨client, "1-r1".toList⟩

def newPackages : List Package := [⟨client, "2-r1".toList⟩, ⟨"b".toList, "3".toList⟩]

def upgradeRaw : Text :=
  "( 1/2) Installing b (3)\n(2/2) Upgrading foxhole-openwrt-client (1-r1 -> 2-r1)\nOK: 2 MiB".toList

def purgeRaw : Text := "(1/1) Purging foxhole-openwrt-client (1-r1)\nOK: 1 MiB\n".toList

theorem package_audit_upgrade :
    (packageDelta oldRows newRows allowedRows = .ok () ∧
      packageDelta oldRows oldRows allowedRows ≠ .ok ()) ∧
    Transcript upgradeRaw (newPackages.map Package.name) (Simulates oldClient newPackages) ∧
    Transcript purgeRaw [client] (Purges [client] oldClient) := by
  have hold : ∀ name old, oldClient.lookup name = some old → PlainVersion old.version := by
    intro name old h
    by_cases hn : name = client
    · rw [hn, oldClient, AList.lookup_insert] at h
      cases h
      decide
    · rw [oldClient, AList.lookup_insert_ne hn] at h
      cases h
  refine ⟨?_, ?_, ?_⟩
  · have hnames : ∃ names : List Text, allowedRows.map Row.name = names.map Field.value ∧
        names.Nodup ∧ ∀ name ∈ names, oldRows.lookup name = none ∨ name = client :=
      ⟨[client, "b".toList], rfl, by decide, by decide⟩
    constructor
    · refine (package_audit_exact.1 oldRows newRows allowedRows).2 ⟨hnames, fun name => ?_⟩
      by_cases hclient : name = client
      · subst hclient
        rfl
      by_cases hb : name = "b".toList
      · subst hb
        rfl
      by_cases hkept : name = "base-files".toList
      · subst hkept
        rfl
      have hfind : allowedRows.find? (fun row => row.name = .value name) = none := by
        rw [List.find?_eq_none]
        intro row hmem hname
        rcases List.mem_pair.1 hmem with rfl | rfl
        · exact hclient (Field.value.inj (of_decide_eq_true hname)).symm
        · exact hb (Field.value.inj (of_decide_eq_true hname)).symm
      rw [overridden, hfind]
      unfold newRows oldRows
      rw [AList.lookup_insert_ne hclient, AList.lookup_insert_ne hkept, AList.lookup_insert_ne hb,
        AList.lookup_insert_ne hkept, AList.lookup_insert_ne hclient]
      rfl
    · intro h
      have hb := ((package_audit_exact.1 oldRows oldRows allowedRows).1 h).2 "b".toList
      cases hb
  · exact (package_audit_exact.2.1 upgradeRaw oldClient newPackages (by decide) (by decide) hold).1
      rfl
  · exact (package_audit_exact.2.2 purgeRaw [client] oldClient (by decide) (by decide) (by decide)
      hold (by decide)).1 (by decide)

def noVersion : Text := "(1/1) Installing b ()".toList

def noVersionPurge : Text := "(1/1) Purging b ()".toList

def versionless : Package := ⟨"b".toList, []⟩

/-- A version without a character is in no line that is let through. -/
theorem package_audit_no_version :
    (Transcript noVersion ([versionless].map Package.name) (Simulates ∅ [versionless]) ∧
      simulation noVersion ∅ [versionless] ≠ .ok ()) ∧
    Transcript noVersionPurge [versionless.name]
      (Purges [versionless.name] ((∅ : Packages Package).insert versionless.name versionless)) ∧
    purgeOnly noVersionPurge [versionless.name]
      ((∅ : Packages Package).insert versionless.name versionless) = false := by
  refine ⟨⟨⟨[versionless.name], .rfl, ?_⟩, ?_⟩, ⟨[versionless.name], .rfl, ?_⟩, by decide⟩
  · have hlines : (noVersion.splitOn '\n').filter opens = [noVersion] := by decide
    rw [hlines]
    refine .cons ⟨installing, [], ⟨versionless, by decide, rfl, rfl, rfl⟩, ?_⟩ .nil
    exact ⟨['1'], ['1'], [], by decide, by decide, by simp, rfl, rfl, by decide⟩
  · intro h
    cases h
  · have hlines : (noVersionPurge.splitOn '\n').filter opens = [noVersionPurge] := by decide
    rw [hlines]
    refine .cons ⟨purging, [], ⟨by decide, rfl, versionless, AList.lookup_insert _, rfl⟩, ?_⟩ .nil
    exact ⟨['1'], ['1'], [], by decide, by decide, by simp, rfl, rfl, by decide⟩

end Foxhole.PackageAudit
