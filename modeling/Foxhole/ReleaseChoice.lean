import Foxhole.BootLink
import Foxhole.RamUpload
import Foxhole.Lib.Best
import Mathlib.Data.List.Lex

/-! Which release is offered for a deployment in memory: ram-update-model.uc. -/
namespace Foxhole.RamUpdate
open Check Text Best
open BootLink (version versionParts dashToDot integer newer)
open RamUpload (releaseFor tagShape maximumApkBytes)

/-- The codes the source fails with, and the exception of the interpreter itself. -/
inductive Failure where
  | releaseUnavailable | packageVerificationFailed | notAnObject
deriving DecidableEq

structure Asset where
  name : Field Text
  size : Field ℤ
deriving DecidableEq

structure Release where
  draft : Field Bool
  prerelease : Field Bool
  tagName : Field Text
  assets : Field (List (Option Asset))
deriving DecidableEq

/-- A base package that is held by one of the loops. -/
structure Base where
  version : Text
  file : Text
  bytes : ℤ
  releaseTag : Text
  isVersion : BootLink.version version = true
deriving DecidableEq

/-- The loop of `compare` over the parts of two versions. -/
def compareParts : List ℕ → List ℕ → ℤ
  | x :: xs, y :: ys => if y < x then 1 else if x < y then -1 else compareParts xs ys
  | _, _ => 0

def compare (a b : Text) : Except Failure ℤ := do
  require (version a = true ∧ version b = true) .packageVerificationFailed
  return compareParts (versionParts a) (versionParts b)

def sized (maximum : ℤ) (size : Field ℤ) : Bool :=
  size.value?.any fun n => integer n && 0 < n && n ≤ maximum

def sumsName : Text := "SHA256SUMS".toList

def basePrefix : Text := "foxhole-openwrt-client-".toList

/-- `^foxhole-openwrt-client-([0-9]{1,6}\.[0-9]{1,6}\.[0-9]{1,6}-r[1-9][0-9]{0,5})\.apk$`, as the
version in the middle. -/
def baseVersion (name : Text) : Option { v : Text // version v = true } := do
  let rest ← name.dropPrefix? basePrefix
  let middle ← rest.dropSuffix? ".apk".toList
  if h : version middle = true then some ⟨middle, h⟩ else none

/-- `base == null || compare(found, base.version) > 0`, and the value that is held then. -/
def keepNewer (held : Option Base) (base : Base) : Except Failure (Option Base) :=
  match held with
  | none => .ok (some base)
  | some other => do
    let order ← compare base.version other.version
    return some (if 0 < order then base else other)

/-- The variables of the loop over the assets. -/
structure Found where
  sums : Bool
  base : Option Base
  seen : List Text
deriving DecidableEq

/-- A base package of the release itself. -/
def offer (tag : Text) (asset : Asset) (name : Text) (found : Found) : Except Failure Found :=
  match baseVersion name with
  | none => .ok found
  | some v =>
    if releaseFor v.1 = tag then do
      require (sized maximumApkBytes asset.size = true) .packageVerificationFailed
      let base ← keepNewer found.base ⟨v.1, name, asset.size.value?.getD 0, tag, v.2⟩
      return { found with base := base }
    else .ok found

def lookAt (tag : Text) (found : Found) (asset : Option Asset) : Except Failure Found :=
  match asset with
  | none => .error .notAnObject
  | some asset =>
    match asset.name with
    | .value name => do
      require (name.length ≤ 255 ∧ name ∉ found.seen) .releaseUnavailable
      offer tag asset name
        { found with
          sums := found.sums || (name = sumsName && sized 1048576 asset.size)
          seen := name :: found.seen }
    | _ => .error .releaseUnavailable

/-- The tag of a release that is not passed over. -/
def Release.tag (release : Release) : Option Text :=
  match release.draft, release.prerelease, release.tagName with
  | .value false, .value _, .value tag => if tagShape.accepts tag = true then some tag else none
  | _, _, _ => none

/-- What a round over the releases makes of its release, up to the base package that it brings;
`none` where the loop goes on. -/
def releaseBase (release : Option Release) : Except Failure (Option Base) :=
  match release with
  | none => .ok none
  | some release =>
    match release.tag with
    | none => .ok none
    | some tag =>
      match release.assets with
      | .value assets => do
        require (assets.length ≤ 1024) .releaseUnavailable
        let found ← assets.foldlM (lookAt tag) ⟨false, none, []⟩
        return if found.sums = true then found.base else none
      | _ => .error .releaseUnavailable

/-- The variables of the loop over the releases. -/
structure Choice where
  chosen : Option Base
  eligible : ℕ
deriving DecidableEq

def choose (current : Text) (choice : Choice) (base : Option Base) : Except Failure Choice :=
  match base with
  | none => .ok choice
  | some base => do
    let order ← compare base.version current
    let chosen ← if order ≤ 0 then pure choice.chosen else keepNewer choice.chosen base
    return ⟨chosen, choice.eligible + 1⟩

def selectRelease (value : Field (List (Option Release))) (current : Text) :
    Except Failure (Option Base) :=
  match value with
  | .value releases => do
    require (releases.length ≤ 10 ∧ version current = true) .releaseUnavailable
    let choice ← releases.foldlM (fun choice release => do
      choose current choice (← releaseBase release)) ⟨none, 0⟩
    require (choice.eligible ≠ 0) .releaseUnavailable
    return choice.chosen
  | _ => .error .releaseUnavailable

/-! The order of the versions. -/

section Order
variable {a b c v : Text}

theorem digits_of_shortDigits (h : v ∈ BootLink.shortDigits.lang) : ∀ c ∈ v, isDigit c = true := by
  have hdigit : (Regex.cls isDigit).Within fun c => isDigit c = true := fun _ hc => hc
  refine Regex.Within.forall_mem ?_ h
  exact ⟨hdigit, trivial, hdigit, trivial, hdigit, trivial, hdigit, trivial, hdigit, trivial,
    hdigit, trivial⟩

theorem dashToDot_cons {x : Char} (h : x ≠ '-') : dashToDot (x :: a) = x :: dashToDot a := by
  rw [dashToDot]
  intro _ hx
  exact absurd hx h

theorem dashToDot_append (h : ∀ c ∈ a, isDigit c = true ∨ c = '.') :
    dashToDot (a ++ b) = a ++ dashToDot b := by
  induction a with
  | nil => rfl
  | cons x a ih =>
    have hx : x ≠ '-' := by
      rintro rfl
      have := h '-' List.mem_cons_self
      simp [isDigit] at this
    rw [List.cons_append, dashToDot_cons hx, ih fun c hc => h c (List.mem_cons_of_mem _ hc)]
    rfl

/-- A version is four numbers. -/
theorem version_parts (h : version v = true) : ∃ w x y z : ℕ, versionParts v = [w, x, y, z] := by
  obtain ⟨w, _, rfl, hw, h⟩ := Regex.mem_lang_seq.1 (Regex.accepts_iff.1 h)
  obtain ⟨_, _, rfl, hdot, h⟩ := Regex.mem_lang_seq.1 h
  obtain ⟨x, _, rfl, hx, h⟩ := Regex.mem_lang_seq.1 h
  obtain ⟨_, _, rfl, hdot', h⟩ := Regex.mem_lang_seq.1 h
  obtain ⟨y, _, rfl, hy, h⟩ := Regex.mem_lang_seq.1 h
  obtain ⟨_, z, rfl, hdash, hz⟩ := Regex.mem_lang_seq.1 h
  rw [Regex.lang_lit.1 hdot, Regex.lang_lit.1 hdot', Regex.lang_lit.1 hdash]
  have hdigits := digits_of_shortDigits hw
  have hdigits' := digits_of_shortDigits hx
  have hdigits'' := digits_of_shortDigits hy
  have hz : ∀ c ∈ z, isDigit c = true := by
    have hdigit : (Regex.cls isDigit).Within fun c => isDigit c = true := fun _ hc => hc
    refine Regex.Within.forall_mem ?_ hz
    exact ⟨fun c hc => by simp at hc; exact hc.1, trivial, hdigit, trivial, hdigit, trivial, hdigit,
      trivial, hdigit, trivial, hdigit, trivial⟩
  have hjoin : dashToDot (w ++ (['.'] ++ (x ++ (['.'] ++ (y ++ (['-', 'r'] ++ z)))))) =
      ['.'].intercalate [w, x, y, z] := by
    rw [dashToDot_append fun c hc => Or.inl (hdigits c hc), dashToDot_append (by simp),
      dashToDot_append fun c hc => Or.inl (hdigits' c hc), dashToDot_append (by simp),
      dashToDot_append fun c hc => Or.inl (hdigits'' c hc)]
    have htail : dashToDot (['-', 'r'] ++ z) = '.' :: z := by
      have := dashToDot_append (b := []) fun c hc => Or.inl (hz c hc)
      rw [List.append_nil] at this
      simp [dashToDot, this]
    rw [htail]
    simp [List.intercalate]
  have hfree : ∀ part ∈ [w, x, y, z], '.' ∉ part := by
    have hne : ∀ t : Text, (∀ c ∈ t, isDigit c = true) → '.' ∉ t := fun t ht hc => by
      simpa [isDigit] using ht _ hc
    simpa using ⟨hne w hdigits, hne x hdigits', hne y hdigits'', hne z hz⟩
  unfold versionParts
  rw [hjoin, List.splitOn_intercalate '.' hfree (by simp)]
  exact ⟨_, _, _, _, rfl⟩

theorem compareParts_swap (xs ys : List ℕ) : compareParts ys xs = -compareParts xs ys := by
  induction xs generalizing ys with
  | nil => cases ys <;> simp [compareParts]
  | cons x xs ih =>
    cases ys with
    | nil => simp [compareParts]
    | cons y ys =>
      simp only [compareParts]
      rcases lt_trichotomy x y with hlt | rfl | hgt
      · simp [hlt, hlt.not_gt]
      · simp [ih]
      · simp [hgt, hgt.not_gt]

theorem compareParts_spec {xs ys : List ℕ} (h : xs.length = ys.length) :
    (0 < compareParts xs ys ↔ ys < xs) ∧ (compareParts xs ys = 0 ↔ xs = ys) ∧
      (compareParts xs ys < 0 ↔ xs < ys) := by
  induction xs generalizing ys with
  | nil =>
    cases ys with
    | nil => simp [compareParts]
    | cons => simp at h
  | cons x xs ih =>
    cases ys with
    | nil => simp at h
    | cons y ys =>
      obtain ⟨hpos, hzero, hneg⟩ := ih (by simpa using h)
      simp only [compareParts, List.cons_lt_cons_iff]
      rcases lt_trichotomy x y with hlt | rfl | hgt
      · simp [hlt, hlt.not_gt, hlt.ne, hlt.ne']
      · simp [hpos, hzero, hneg]
      · simp [hgt, hgt.not_gt, hgt.ne, hgt.ne']

theorem compare_of_versions (ha : version a = true) (hb : version b = true) :
    compare a b = .ok (compareParts (versionParts a) (versionParts b)) := by
  unfold compare
  rw [show require _ _ = .ok () from require_eq_ok.2 ⟨ha, hb⟩]
  rfl

theorem versionParts_length (ha : version a = true) (hb : version b = true) :
    (versionParts a).length = (versionParts b).length := by
  obtain ⟨_, _, _, _, ha⟩ := version_parts ha
  obtain ⟨_, _, _, _, hb⟩ := version_parts hb
  rw [ha, hb]
  rfl

theorem newer_iff (ha : version a = true) (hb : version b = true) :
    newer a b ↔ versionParts b < versionParts a := by
  unfold newer
  simp [ha, hb]

theorem compare_pos {n : ℤ} (h : compare a b = .ok n) : 0 < n ↔ newer a b := by
  simp only [compare, bind_eq_ok, require_eq_ok, pure_eq_ok] at h
  obtain ⟨_, ⟨ha, hb⟩, rfl⟩ := h
  rw [newer_iff ha hb]
  exact (compareParts_spec (versionParts_length ha hb)).1

/-- On versions the order is total, and equality in it is an equivalence. -/
theorem compare_preorder (ha : version a = true) (hb : version b = true) (hc : version c = true) :
    compare a a = .ok 0 ∧ (∃ n, compare a b = .ok n ∧ compare b a = .ok (-n)) ∧
    ∀ m n, compare a b = .ok m → compare b c = .ok n → m ≤ 0 → n ≤ 0 →
      ∃ k, compare a c = .ok k ∧ k ≤ 0 := by
  have hself := compareParts_spec (versionParts_length ha ha)
  have hab := compareParts_spec (versionParts_length ha hb)
  have hbc := compareParts_spec (versionParts_length hb hc)
  have hac := compareParts_spec (versionParts_length ha hc)
  rw [compare_of_versions ha ha, compare_of_versions ha hb, compare_of_versions hb ha,
    compare_of_versions hb hc, compare_of_versions ha hc, hself.2.1.2 rfl]
  refine ⟨rfl, ⟨_, rfl, congrArg _ (compareParts_swap _ _)⟩, ?_⟩
  rintro _ _ ⟨⟩ ⟨⟩ hm hn
  refine ⟨_, rfl, not_lt.1 fun hk => ?_⟩
  have hle := not_lt.1 (mt hab.1.2 (not_lt.2 hm))
  have hle' := not_lt.1 (mt hbc.1.2 (not_lt.2 hn))
  exact absurd (hac.1.1 hk) (not_lt.2 (hle.trans hle'))

end Order

section Choice
variable {tag name current : Text} {found found' : Found} {asset : Option Asset}
  {assets : List (Option Asset)} {base other : Base} {held : Option Base}

/-- The order of the base packages that are compared. -/
def byVersion (base other : Base) : Prop := newer base.version other.version

instance : DecidableRel byVersion := fun _ _ =>
  inferInstanceAs (Decidable (newer _ _))

theorem byVersion_iff : byVersion base other ↔
    versionParts other.version < versionParts base.version :=
  newer_iff base.isVersion other.isVersion

instance : IsStrictOrder Base byVersion where
  irrefl _ h := lt_irrefl _ (byVersion_iff.1 h)
  trans _ _ _ h h' := byVersion_iff.2 ((byVersion_iff.1 h').trans (byVersion_iff.1 h))

theorem keepNewer_eq : keepNewer held base = .ok (keep byVersion held base) := by
  cases held with
  | none => rfl
  | some other =>
    have hcompare := compare_of_versions base.isVersion other.isVersion
    have hpos := compare_pos hcompare
    simp only [keepNewer, hcompare, keep, byVersion]
    by_cases h : newer base.version other.version
    · simp [h, hpos.2 h, bind, Except.bind, pure, Except.pure]
    · simp [h, mt hpos.1 h, bind, Except.bind, pure, Except.pure]

/-- The base package that an asset is for a release of this tag. -/
def Asset.toBase (tag : Text) (asset : Asset) : Option Base := do
  let name ← asset.name.value?
  let v ← baseVersion name
  if releaseFor v.1 = tag then some ⟨v.1, name, asset.size.value?.getD 0, tag, v.2⟩ else none

/-- The checksums that a release cannot do without. -/
def Asset.isSums (asset : Asset) : Bool :=
  asset.name.value? = some sumsName && sized 1048576 asset.size

/-- What the loop asks of an asset by itself. -/
def Asset.Fine (tag : Text) (asset : Asset) : Prop :=
  (∃ name, asset.name = .value name ∧ name.length ≤ 255) ∧
    ((asset.toBase tag).isSome = true → sized maximumApkBytes asset.size = true)

theorem offer_eq_ok {row : Asset} (hname : row.name = .value name) :
    offer tag row name found = .ok found' ↔
      ((row.toBase tag).isSome = true → sized maximumApkBytes row.size = true) ∧
      { found with base := skipping (keep byVersion) found.base (row.toBase tag) } = found' := by
  cases hv : baseVersion name with
  | none =>
    have hbase : row.toBase tag = none := by simp [Asset.toBase, hname, hv]
    simp only [offer, hv, hbase, skipping, Except.ok.injEq]
    simp
  | some v =>
    by_cases htag : releaseFor v.1 = tag
    · have hbase : row.toBase tag = some ⟨v.1, name, row.size.value?.getD 0, tag, v.2⟩ := by
        simp [Asset.toBase, hname, hv, htag]
      simp only [offer, hv, hbase, if_pos htag, bind_eq_ok, require_eq_ok, keepNewer_eq,
        pure_eq_ok, Except.ok.injEq, exists_eq_left', Option.isSome_some, forall_const, skipping]
      simp
    · have hbase : row.toBase tag = none := by simp [Asset.toBase, hname, hv, htag]
      simp only [offer, hv, hbase, if_neg htag, skipping, Except.ok.injEq]
      simp

/-- One round over the assets. -/
theorem lookAt_eq_ok : lookAt tag found asset = .ok found' ↔
    ∃ row name, asset = some row ∧ row.name = .value name ∧ row.Fine tag ∧ name ∉ found.seen ∧
      ⟨found.sums || row.isSums, skipping (keep byVersion) found.base (row.toBase tag),
        name :: found.seen⟩ = found' := by
  cases asset with
  | none => simp [lookAt]
  | some row =>
    cases hname : row.name with
    | missing => simp [lookAt, hname]
    | invalid => simp [lookAt, hname]
    | value name =>
      have hsums : (decide (name = sumsName) && sized 1048576 row.size) = row.isSums := by
        simp [Asset.isSums, hname]
      simp only [lookAt, hname, bind_eq_ok, require_eq_ok, offer_eq_ok hname, hsums]
      constructor
      · rintro ⟨_, ⟨hlength, hnew⟩, hfine, rfl⟩
        exact ⟨row, name, rfl, hname, ⟨⟨name, hname, hlength⟩, hfine⟩, hnew, rfl⟩
      · rintro ⟨_, name', ⟨⟩, hname', ⟨⟨name'', hname'', hlength⟩, hfine⟩, hnew, rfl⟩
        rw [hname] at hname' hname''
        cases hname'
        cases hname''
        exact ⟨(), ⟨hlength, hnew⟩, hfine, rfl⟩

/-- The loop over the assets: each is fine by itself, none comes twice, and the newest base
package of the release is held at the end. -/
theorem lookAt_run : assets.foldlM (lookAt tag) found = .ok found' ↔
    ∃ (rows : List Asset) (names : List Text), assets = rows.map some ∧
      rows.map Asset.name = names.map Field.value ∧
      (∀ row ∈ rows, row.Fine tag) ∧ names.Nodup ∧ (∀ name ∈ names, name ∉ found.seen) ∧
      ⟨found.sums || rows.any Asset.isSums,
        (rows.filterMap (Asset.toBase tag)).foldl (keep byVersion) found.base,
        names.reverse ++ found.seen⟩ = found' := by
  induction assets generalizing found with
  | nil =>
    constructor
    · rintro ⟨⟩
      exact ⟨[], [], by simp⟩
    · rintro ⟨rows, names, hrows, hnames, -, -, -, rfl⟩
      have hr : rows = [] := by simpa using hrows.symm
      subst hr
      have hn : names = [] := by simpa using hnames.symm
      subst hn
      simp
  | cons asset assets ih =>
    simp only [List.foldlM_cons, bind_eq_ok]
    constructor
    · rintro ⟨middle, hstep, hrest⟩
      obtain ⟨row, name, rfl, hname, hfine, hnew, rfl⟩ := lookAt_eq_ok.1 hstep
      obtain ⟨rows, names, rfl, hnames, hall, hnodup, hfresh, rfl⟩ := ih.1 hrest
      refine ⟨row :: rows, name :: names, rfl, by simp [hname, hnames], ?_, ?_, ?_, ?_⟩
      · simpa using ⟨hfine, hall⟩
      · refine List.nodup_cons.2 ⟨fun hmem => ?_, hnodup⟩
        exact hfresh name hmem List.mem_cons_self
      · intro n hn hseen
        rcases List.mem_cons.1 hn with rfl | hn
        · exact hnew hseen
        · exact hfresh n hn (List.mem_cons_of_mem _ hseen)
      · cases hb : row.toBase tag <;> simp [hb, skipping, Bool.or_assoc]
    · rintro ⟨rows, names, hrows, hnames, hall, hnodup, hfresh, rfl⟩
      cases rows with
      | nil => simp at hrows
      | cons row rows =>
        obtain ⟨name, names, rfl⟩ : ∃ n ns, names = n :: ns := by
          cases names with
          | nil => simp at hnames
          | cons n ns => exact ⟨n, ns, rfl⟩
        simp only [List.map_cons, List.cons.injEq] at hrows hnames
        obtain ⟨rfl, rfl⟩ := hrows
        refine ⟨_, lookAt_eq_ok.2 ⟨row, name, rfl, hnames.1, hall row List.mem_cons_self,
          hfresh name List.mem_cons_self, rfl⟩, ih.2 ⟨rows, names, rfl, hnames.2, ?_, ?_, ?_, ?_⟩⟩
        · exact fun r hr => hall r (List.mem_cons_of_mem _ hr)
        · exact (List.nodup_cons.1 hnodup).2
        · intro n hn hseen
          rcases List.mem_cons.1 hseen with rfl | hseen
          · exact (List.nodup_cons.1 hnodup).1 hn
          · exact hfresh n (List.mem_cons_of_mem _ hn) hseen
        · cases hb : row.toBase tag <;> simp [hb, skipping, Bool.or_assoc]

/-- The base packages that a release brings: none where it is passed over or has no checksums. -/
def Release.bases (release : Release) : List Base :=
  match release.tag, release.assets with
  | some tag, .value assets =>
    if assets.reduceOption.any Asset.isSums = true then
      assets.reduceOption.filterMap (Asset.toBase tag)
    else []
  | _, _ => []

/-- What the loops ask of a release. -/
def Release.Fine (release : Release) : Prop :=
  ∀ tag, release.tag = some tag → ∃ (rows : List Asset) (names : List Text),
    release.assets = .value (rows.map some) ∧ rows.length ≤ 1024 ∧
    rows.map Asset.name = names.map Field.value ∧ (∀ row ∈ rows, row.Fine tag) ∧ names.Nodup

theorem reduceOption_map_some (rows : List Asset) : (rows.map some).reduceOption = rows := by
  simp [List.reduceOption, List.filterMap_map]

theorem releaseBase_eq_ok {release : Release} :
    releaseBase (some release) = .ok held ↔
      release.Fine ∧ best byVersion release.bases = held := by
  cases htag : release.tag with
  | none => simp [releaseBase, htag, Release.Fine, Release.bases, best]
  | some tag =>
    cases hassets : release.assets with
    | missing => simp [releaseBase, htag, hassets, Release.Fine]
    | invalid => simp [releaseBase, htag, hassets, Release.Fine]
    | value assets =>
      simp only [releaseBase, htag, hassets, bind_eq_ok, require_eq_ok, pure_eq_ok, lookAt_run]
      constructor
      · rintro ⟨_, hlength, _, ⟨rows, names, rfl, hnames, hall, hnodup, -, rfl⟩, rfl⟩
        refine ⟨?_, ?_⟩
        · rintro _ ht
          cases htag.symm.trans ht
          exact ⟨rows, names, hassets, by simpa using hlength, hnames, hall, hnodup⟩
        · simp only [Release.bases, htag, hassets, reduceOption_map_some, Bool.false_or]
          cases rows.any Asset.isSums <;> rfl
      · rintro ⟨hfine, rfl⟩
        obtain ⟨rows, names, hrows, hlength, hnames, hall, hnodup⟩ := hfine tag htag
        cases hassets.symm.trans hrows
        refine ⟨(), by simpa using hlength, _,
          ⟨rows, names, rfl, hnames, hall, hnodup, by simp, rfl⟩, ?_⟩
        simp only [Release.bases, htag, hassets, reduceOption_map_some, Bool.false_or]
        cases rows.any Asset.isSums <;> rfl

/-- One round over the releases, with what its release brings. -/
theorem choose_eq_ok {choice choice' : Choice} (hcurrent : version current = true) :
    choose current choice held = .ok choice' ↔
      ⟨skipping (keep byVersion) choice.chosen (held.filter fun b => newer b.version current),
        choice.eligible + held.toList.length⟩ = choice' := by
  cases held with
  | none => simp [choose, skipping]
  | some base =>
    have hcompare := compare_of_versions base.isVersion hcurrent
    have hpos := compare_pos hcompare
    simp only [choose, hcompare]
    by_cases h : newer base.version current
    · have hn := not_le.2 (hpos.2 h)
      simp [bind, Except.bind, hn, keepNewer_eq, h, skipping, pure, Except.pure, Option.filter]
    · have hle := not_lt.1 (mt hpos.1 h)
      simp [bind, Except.bind, hle, h, skipping, pure, Except.pure, Option.filter]

theorem choose_run {rows : List (Option Base)} {choice choice' : Choice}
    (hcurrent : version current = true) :
    rows.foldlM (choose current) choice = .ok choice' ↔
      ⟨(rows.reduceOption.filter fun b => newer b.version current).foldl (keep byVersion)
        choice.chosen, choice.eligible + rows.reduceOption.length⟩ = choice' := by
  induction rows generalizing choice with
  | nil => simp
  | cons row rows ih =>
    simp only [List.foldlM_cons, bind_eq_ok, choose_eq_ok hcurrent, exists_eq_left', ih]
    cases row with
    | none => simp [skipping]
    | some base =>
      by_cases h : newer base.version current
      · simp [h, skipping, Option.filter, Nat.add_assoc, Nat.add_comm 1]
      · simp [h, skipping, Option.filter, Nat.add_assoc, Nat.add_comm 1]

/-- The newest base package of each release. -/
def newest (releases : List (Option Release)) : List Base :=
  releases.reduceOption.filterMap fun release => best byVersion release.bases

theorem releases_run {releases : List (Option Release)} {rows : List (Option Base)} :
    releases.mapM releaseBase = .ok rows ↔
      (∀ release, some release ∈ releases → release.Fine) ∧
      releases.map (·.bind fun release => best byVersion release.bases) = rows := by
  induction releases generalizing rows with
  | nil => simp
  | cons release releases ih =>
    simp only [List.mapM_cons, bind_eq_ok, pure_eq_ok, ih]
    cases release with
    | none =>
      constructor
      · rintro ⟨_, ⟨⟩, _, ⟨hall, rfl⟩, rfl⟩
        exact ⟨by simpa using hall, rfl⟩
      · rintro ⟨hall, rfl⟩
        exact ⟨none, rfl, _, ⟨fun r hr => hall r (List.mem_cons_of_mem _ hr), rfl⟩, rfl⟩
    | some release =>
      simp only [releaseBase_eq_ok]
      constructor
      · rintro ⟨_, ⟨hfine, rfl⟩, _, ⟨hall, rfl⟩, rfl⟩
        exact ⟨by simpa using ⟨hfine, hall⟩, rfl⟩
      · rintro ⟨hall, rfl⟩
        exact ⟨_, ⟨hall release List.mem_cons_self, rfl⟩, _,
          ⟨fun r hr => hall r (List.mem_cons_of_mem _ hr), rfl⟩, rfl⟩

theorem reduceOption_bind {releases : List (Option Release)} :
    (releases.map (·.bind fun release => best byVersion release.bases)).reduceOption =
      newest releases := by
  unfold newest List.reduceOption
  rw [List.filterMap_map, List.filterMap_filterMap]
  rfl

theorem newest_ne_nil {releases : List (Option Release)} :
    (newest releases).length ≠ 0 ↔ ∃ release, some release ∈ releases ∧ release.bases ≠ [] := by
  rw [← Nat.pos_iff_ne_zero, List.length_pos_iff_exists_mem]
  simp only [newest, List.mem_filterMap, List.reduceOption_mem_iff]
  constructor
  · rintro ⟨base, release, hmem, hbest⟩
    refine ⟨release, hmem, fun hnil => ?_⟩
    rw [best_eq_none.2 hnil] at hbest
    cases hbest
  · rintro ⟨release, hmem, hne⟩
    cases hbest : best byVersion release.bases with
    | none => exact absurd (best_eq_none.1 hbest) hne
    | some base => exact ⟨base, release, hmem, hbest⟩

theorem selectRelease_eq_ok {releases : List (Option Release)} {chosen : Option Base} :
    selectRelease (.value releases) current = .ok chosen ↔
      (releases.length ≤ 10 ∧ version current = true ∧
        (∀ release, some release ∈ releases → release.Fine) ∧
        ∃ release, some release ∈ releases ∧ release.bases ≠ []) ∧
      best byVersion ((newest releases).filter fun b => newer b.version current) = chosen := by
  simp only [selectRelease, bind_eq_ok, require_eq_ok, pure_eq_ok, ← newest_ne_nil]
  constructor
  · rintro ⟨_, ⟨hlength, hcurrent⟩, choice, hrun, _, heligible, rfl⟩
    obtain ⟨rows, hrows, hfold⟩ := (foldlM_rounds (f := releaseBase)).1 hrun
    obtain ⟨hall, rfl⟩ := releases_run.1 hrows
    obtain rfl := (choose_run hcurrent).1 hfold
    rw [reduceOption_bind] at heligible ⊢
    exact ⟨⟨hlength, hcurrent, hall, by simpa using heligible⟩, rfl⟩
  · rintro ⟨⟨hlength, hcurrent, hall, heligible⟩, rfl⟩
    refine ⟨(), ⟨hlength, hcurrent⟩, _, (foldlM_rounds (f := releaseBase)).2
      ⟨_, releases_run.2 ⟨hall, rfl⟩, (choose_run hcurrent).2 rfl⟩, (), ?_, ?_⟩
    · rw [reduceOption_bind]
      simpa using heligible
    · rw [reduceOption_bind]
      rfl

end Choice

/-! What the releases offer. -/

/-- `compare` finds the first version greater. -/
def Greater (a b : Text) : Prop := ∃ n, compare a b = .ok n ∧ 0 < n

def AtMost (a b : Text) : Prop := ∃ n, compare a b = .ok n ∧ n ≤ 0

/-- A correctly named base package for this tag. -/
def Asset.IsBase (tag v : Text) (asset : Asset) : Prop :=
  ∃ name w, asset.name = .value name ∧ baseVersion name = some w ∧ w.1 = v ∧ releaseFor v = tag

/-- A release that is no draft and says whether it is a prerelease, with a valid tag and
checksums of an allowed size, and one of its base packages. -/
def Release.Offers (release : Release) (v : Text) : Prop :=
  ∃ tag assets, release.draft = .value false ∧ (∃ b, release.prerelease = .value b) ∧
    release.tagName = .value tag ∧ tagShape.accepts tag = true ∧ release.assets = .value assets ∧
    (∃ asset, some asset ∈ assets ∧ asset.name = .value sumsName ∧
      sized 1048576 asset.size = true) ∧
    ∃ asset, some asset ∈ assets ∧ asset.IsBase tag v

def Offered (releases : List (Option Release)) (v : Text) : Prop :=
  ∃ release, some release ∈ releases ∧ release.Offers v

section Offers
variable {a b v tag current : Text} {asset : Asset} {release release' : Release}
  {releases releases' : List (Option Release)} {base : Base}

theorem greater_iff (ha : version a = true) (hb : version b = true) : Greater a b ↔ newer a b := by
  have h := compare_of_versions ha hb
  constructor
  · rintro ⟨n, hn, hpos⟩
    exact (compare_pos hn).1 hpos
  · intro hnewer
    exact ⟨_, h, (compare_pos h).2 hnewer⟩

theorem atMost_iff (ha : version a = true) (hb : version b = true) :
    AtMost a b ↔ ¬ newer a b := by
  have h := compare_of_versions ha hb
  constructor
  · rintro ⟨n, hn, hle⟩ hnewer
    exact absurd ((compare_pos hn).2 hnewer) (not_lt.2 hle)
  · intro hn
    exact ⟨_, h, not_lt.1 (mt (compare_pos h).1 hn)⟩

theorem toBase_version : (∃ base, asset.toBase tag = some base ∧ base.version = v) ↔
    asset.IsBase tag v := by
  constructor
  · rintro ⟨base, h, rfl⟩
    simp only [Asset.toBase, Option.bind_eq_bind, Option.bind_eq_some_iff] at h
    obtain ⟨name, hname, w, hw, h⟩ := h
    split at h
    · rename_i htag
      cases h
      refine ⟨name, w, ?_, hw, rfl, htag⟩
      cases hn : asset.name <;> simp_all
    · cases h
  · rintro ⟨name, w, hname, hw, rfl, htag⟩
    refine ⟨⟨w.1, name, asset.size.value?.getD 0, tag, w.2⟩, ?_, rfl⟩
    simp [Asset.toBase, hname, hw, htag]

theorem isSums_iff : asset.isSums = true ↔
    asset.name = .value sumsName ∧ sized 1048576 asset.size = true := by
  unfold Asset.isSums
  cases asset.name <;> simp

theorem tag_eq_some : release.tag = some tag ↔ release.draft = .value false ∧
    (∃ b, release.prerelease = .value b) ∧ release.tagName = .value tag ∧
    tagShape.accepts tag = true := by
  unfold Release.tag
  split
  · rename_i hdraft hpre htag
    simp only [hdraft, hpre, htag, Field.value.injEq, exists_eq', true_and]
    constructor
    · intro h
      split at h
      · cases h
        exact ⟨rfl, ‹_›⟩
      · cases h
    · rintro ⟨rfl, h⟩
      rw [if_pos h]
  · rename_i hno
    simp only [reduceCtorEq, false_iff]
    rintro ⟨hdraft, ⟨b, hpre⟩, htag, -⟩
    exact hno b tag hdraft hpre htag

/-- The base packages of a release are what it offers. -/
theorem mem_bases : (∃ base ∈ release.bases, base.version = v) ↔ release.Offers v := by
  constructor
  · rintro ⟨base, hbase, rfl⟩
    unfold Release.bases at hbase
    split at hbase
    · rename_i tag assets htag hassets
      split at hbase
      · rename_i hsums
        obtain ⟨row, hrow, hb⟩ := List.mem_filterMap.1 hbase
        obtain ⟨sums, hmem, hs⟩ := List.any_eq_true.1 hsums
        obtain ⟨hdraft, hpre, hname, hshape⟩ := tag_eq_some.1 htag
        refine ⟨tag, assets, hdraft, hpre, hname, hshape, hassets, ?_, ?_⟩
        · exact ⟨sums, List.reduceOption_mem_iff.1 hmem, isSums_iff.1 hs⟩
        · exact ⟨row, List.reduceOption_mem_iff.1 hrow, toBase_version.1 ⟨base, hb, rfl⟩⟩
      · cases hbase
    · cases hbase
  · rintro ⟨tag, assets, hdraft, hpre, hname, hshape, hassets, ⟨sums, hmem, hs⟩, row, hrow, hb⟩
    obtain ⟨base, hbase, rfl⟩ := toBase_version.2 hb
    refine ⟨base, ?_, rfl⟩
    have htag := tag_eq_some.2 ⟨hdraft, hpre, hname, hshape⟩
    have hsums : assets.reduceOption.any Asset.isSums = true :=
      List.any_eq_true.2 ⟨sums, List.reduceOption_mem_iff.2 hmem, isSums_iff.2 hs⟩
    unfold Release.bases
    simp only [htag, hassets, hsums, if_true]
    exact List.mem_filterMap.2 ⟨row, List.reduceOption_mem_iff.2 hrow, hbase⟩

theorem Offered.isVersion (h : Offered releases v) : version v = true := by
  obtain ⟨release, -, hoffers⟩ := h
  obtain ⟨base, -, rfl⟩ := mem_bases.2 hoffers
  exact base.isVersion

/-- The newest package of its release is at least as new as what is offered. -/
theorem Offered.newest (h : Offered releases v) :
    ∃ base ∈ newest releases, versionParts v ≤ versionParts base.version := by
  obtain ⟨release, hmem, hoffers⟩ := h
  obtain ⟨base, hbase, rfl⟩ := mem_bases.2 hoffers
  cases hbest : best byVersion release.bases with
  | none =>
    rw [best_eq_none.1 hbest] at hbase
    cases hbase
  | some top =>
    refine ⟨top, ?_, not_lt.1 fun hlt => ?_⟩
    · exact List.mem_filterMap.2 ⟨release, List.reduceOption_mem_iff.2 hmem, hbest⟩
    · exact (best_spec hbest).2 base hbase (byVersion_iff.2 hlt)

theorem offered_of_newest (h : base ∈ newest releases) : Offered releases base.version := by
  obtain ⟨release, hmem, hbest⟩ := List.mem_filterMap.1 h
  exact ⟨release, List.reduceOption_mem_iff.1 hmem,
    mem_bases.1 ⟨base, (best_spec hbest).1, rfl⟩⟩

/-- The same release, its assets in another order. -/
inductive Shuffled : Option Release → Option Release → Prop
  | same (release : Option Release) : Shuffled release release
  | assets (release : Release) {assets assets' : List (Option Asset)} (h : assets.Perm assets') :
      Shuffled (some { release with assets := .value assets })
        (some { release with assets := .value assets' })

theorem Shuffled.symm {r r' : Option Release} (h : Shuffled r r') : Shuffled r' r := by
  cases h with
  | same => exact .same _
  | assets release hperm => exact .assets release hperm.symm

theorem exists_map_of_perm {α β : Type} {f : α → β} {l : List α} {l' : List β}
    (h : l'.Perm (l.map f)) : ∃ k : List α, l' = k.map f ∧ k.Perm l := by
  rwa [← congrFun (congrFun (List.eq_map_comp_perm f) l') l] at h

theorem Release.Fine.shuffled (h : Shuffled (some release) (some release')) (hfine : release.Fine) :
    release'.Fine := by
  cases h with
  | same => exact hfine
  | @assets release assets assets' hperm =>
    intro tag htag
    obtain ⟨rows, names, hrows, hlength, hnames, hall, hnodup⟩ := hfine tag htag
    cases hrows
    obtain ⟨rows', rfl, hrows⟩ := exists_map_of_perm hperm.symm
    obtain ⟨names', hnames', hn⟩ := exists_map_of_perm (hnames ▸ hrows.map Asset.name)
    exact ⟨rows', names', rfl, hrows.length_eq ▸ hlength, hnames',
      fun row hrow => hall row (hrows.mem_iff.1 hrow), hn.nodup_iff.2 hnodup⟩

theorem Release.Offers.shuffled (h : Shuffled (some release) (some release'))
    (ho : release.Offers v) :
    release'.Offers v := by
  cases h with
  | same => exact ho
  | assets release hperm =>
    obtain ⟨tag, assets, hdraft, hpre, hname, hshape, hassets, ⟨sums, hmem, hs⟩, row, hrow, hb⟩ :=
      ho
    cases hassets
    exact ⟨tag, _, hdraft, hpre, hname, hshape, rfl, ⟨sums, hperm.mem_iff.1 hmem, hs⟩, row,
      hperm.mem_iff.1 hrow, hb⟩

theorem Offered.reordered (hr : Reordered Shuffled releases releases')
    (h : Offered releases v) : Offered releases' v := by
  obtain ⟨release, hmem, hoffers⟩ := h
  obtain ⟨other, hother, hs⟩ := hr.exists_left hmem
  cases other with
  | none => cases hs
  | some other => exact ⟨other, hother, hoffers.shuffled hs⟩

/-- The choice is a newest offer, where one is newer than what is installed. -/
theorem selectRelease_newest {chosen : Option Base}
    (h : selectRelease (.value releases) current = .ok chosen) :
    (chosen = none ↔ ¬ ∃ v, Offered releases v ∧ Greater v current) ∧
    ∀ base ∈ chosen, Offered releases base.version ∧ Greater base.version current ∧
      ∀ v, Offered releases v → AtMost v base.version := by
  obtain ⟨⟨-, hcurrent, -, -⟩, rfl⟩ := selectRelease_eq_ok.1 h
  have hmem (base : Base) : base ∈ (newest releases).filter (fun b => newer b.version current) ↔
      base ∈ newest releases ∧ newer base.version current := by simp
  constructor
  · rw [best_eq_none, List.eq_nil_iff_forall_not_mem]
    constructor
    · rintro hnone ⟨v, hv, hgreater⟩
      obtain ⟨base, hbase, hle⟩ := hv.newest
      have hlt := (newer_iff hv.isVersion hcurrent).1
          ((greater_iff hv.isVersion hcurrent).1 hgreater)
      exact hnone base ((hmem base).2
        ⟨hbase, (newer_iff base.isVersion hcurrent).2 (hlt.trans_le hle)⟩)
    · intro hno base hbase
      obtain ⟨hbase, hnewer⟩ := (hmem base).1 hbase
      exact hno ⟨base.version, offered_of_newest hbase,
        (greater_iff base.isVersion hcurrent).2 hnewer⟩
  · intro base hbase
    obtain ⟨hbest, hall⟩ := best_spec hbase
    obtain ⟨hnewest, hnewer⟩ := (hmem base).1 hbest
    refine ⟨offered_of_newest hnewest, (greater_iff base.isVersion hcurrent).2 hnewer, ?_⟩
    intro v hv
    refine (atMost_iff hv.isVersion base.isVersion).2 fun hgreater => ?_
    have hlt := (newer_iff hv.isVersion base.isVersion).1 hgreater
    obtain ⟨top, htop, hle⟩ := hv.newest
    have hbt := hlt.trans_le hle
    have htop' := (newer_iff top.isVersion hcurrent).2
      (((newer_iff base.isVersion hcurrent).1 hnewer).trans hbt)
    exact hall top ((hmem top).2 ⟨htop, htop'⟩) (byVersion_iff.2 hbt)

theorem succeeds_reordered (hr : Reordered Shuffled releases releases')
    (h : Succeeds (selectRelease (.value releases) current)) :
    Succeeds (selectRelease (.value releases') current) := by
  obtain ⟨chosen, h⟩ := h
  obtain ⟨⟨hlength, hcurrent, hfine, release, hmem, hne⟩, -⟩ := selectRelease_eq_ok.1 h
  refine ⟨_, selectRelease_eq_ok.2 ⟨⟨hr.length_eq ▸ hlength, hcurrent, ?_, ?_⟩, rfl⟩⟩
  · intro other hother
    obtain ⟨r, hr, hs⟩ := hr.exists_right hother
    cases r with
    | none => cases hs
    | some r => exact (hfine r hr).shuffled hs
  · obtain ⟨base, hbase⟩ := List.exists_mem_of_ne_nil _ hne
    obtain ⟨other, hother, ho⟩ :=
      Offered.reordered hr ⟨release, hmem, mem_bases.1 ⟨base, hbase, rfl⟩⟩
    obtain ⟨base', hbase', -⟩ := mem_bases.2 ho
    exact ⟨other, hother, List.ne_nil_of_mem hbase'⟩

/-- The order of the releases and of their assets changes the choice only among equal versions. -/
theorem selectRelease_reordered {chosen chosen' : Option Base}
    (hr : Reordered Shuffled releases releases')
    (h : selectRelease (.value releases) current = .ok chosen)
    (h' : selectRelease (.value releases') current = .ok chosen') :
    Option.Rel (fun base base' => compare base.version base'.version = .ok 0) chosen chosen' := by
  have hback {v : Text} : Offered releases' v → Offered releases v :=
    Offered.reordered (hr.symm fun _ _ => Shuffled.symm)
  obtain ⟨hnone, hsome⟩ := selectRelease_newest h
  obtain ⟨hnone', hsome'⟩ := selectRelease_newest h'
  cases chosen with
  | none =>
    have : chosen' = none := by
      refine hnone'.2 ?_
      rintro ⟨v, hv, hgreater⟩
      exact hnone.1 rfl ⟨v, hback hv, hgreater⟩
    subst this
    exact .none
  | some base =>
    cases chosen' with
    | none =>
      obtain ⟨hoffered, hgreater, -⟩ := hsome base rfl
      exact absurd ⟨_, hoffered.reordered hr, hgreater⟩ (hnone'.1 rfl)
    | some base' =>
      obtain ⟨hoffered, -, hmax⟩ := hsome base rfl
      obtain ⟨hoffered', -, hmax'⟩ := hsome' base' rfl
      have hle := (atMost_iff base'.isVersion base.isVersion).1 (hmax _ (hback hoffered'))
      have hle' := (atMost_iff base.isVersion base'.isVersion).1 (hmax' _ (hoffered.reordered hr))
      rw [newer_iff base'.isVersion base.isVersion, not_lt] at hle
      rw [newer_iff base.isVersion base'.isVersion, not_lt] at hle'
      refine .some ?_
      rw [compare_of_versions base.isVersion base'.isVersion]
      exact congrArg _ ((compareParts_spec
        (versionParts_length base.isVersion base'.isVersion)).2.1.2 (le_antisymm hle' hle))

end Offers

/-- The choice among the releases: nothing where no offer is newer than what is installed, else
an offer that none exceeds. Neither the order of the releases nor that of their assets matters,
and `compare` is a total preorder on versions. -/
theorem select_release_choice (releases : List (Option Release)) (current : Text) :
    (∀ chosen, selectRelease (.value releases) current = .ok chosen →
      (chosen = none ↔ ¬ ∃ v, Offered releases v ∧ Greater v current) ∧
      ∀ base ∈ chosen, Offered releases base.version ∧ Greater base.version current ∧
        ∀ v, Offered releases v → AtMost v base.version) ∧
    (∀ releases', Reordered Shuffled releases releases' →
      (Succeeds (selectRelease (.value releases) current) ↔
        Succeeds (selectRelease (.value releases') current)) ∧
      ∀ chosen chosen', selectRelease (.value releases) current = .ok chosen →
        selectRelease (.value releases') current = .ok chosen' →
        Option.Rel (fun base base' => compare base.version base'.version = .ok 0)
          chosen chosen') ∧
    (∀ a, version a = true → AtMost a a) ∧
    (∀ a b, version a = true → version b = true → AtMost a b ∨ AtMost b a) ∧
    ∀ a b c, version a = true → version b = true → version c = true →
      AtMost a b → AtMost b c → AtMost a c := by
  refine ⟨fun _ => selectRelease_newest, fun releases' hr => ⟨⟨succeeds_reordered hr,
    succeeds_reordered (hr.symm fun _ _ => Shuffled.symm)⟩, fun _ _ =>
      selectRelease_reordered hr⟩, ?_, ?_, ?_⟩
  · intro a ha
    exact ⟨0, (compare_preorder ha ha ha).1, le_rfl⟩
  · intro a b ha hb
    obtain ⟨n, hn, hn'⟩ := (compare_preorder ha hb ha).2.1
    rcases le_total n 0 with h | h
    · exact Or.inl ⟨n, hn, h⟩
    · exact Or.inr ⟨-n, hn', by omega⟩
  · rintro a b c ha hb hc ⟨m, hm, hm0⟩ ⟨n, hn, hn0⟩
    exact (compare_preorder ha hb hc).2.2 m n hm hn hm0 hn0

/-! A newer release whose checksums are empty, beside the release that is installed. -/

/-- A release that is no draft, with a valid tag and a file of checksums, and one of its base
packages. -/
def Release.Names (release : Release) (v : Text) : Prop :=
  ∃ tag assets, release.draft = .value false ∧ release.tagName = .value tag ∧
    tagShape.accepts tag = true ∧ release.assets = .value assets ∧
    (∃ asset, some asset ∈ assets ∧ asset.name = .value sumsName) ∧
    ∃ asset, some asset ∈ assets ∧ asset.IsBase tag v

def baseFile (v : String) : Text := basePrefix ++ v.toList ++ ".apk".toList

def sampleRelease (v : String) (sums : ℤ) : Release where
  draft := .value false
  prerelease := .value false
  tagName := .value (releaseFor v.toList)
  assets := .value [some ⟨.value sumsName, .value sums⟩, some ⟨.value (baseFile v), .value 4096⟩]

def emptySums : List (Option Release) :=
  [some (sampleRelease "2.0.0-r1" 0), some (sampleRelease "1.0.0-r1" 512)]

theorem select_release_empty_sums : ¬ ∀ releases current chosen,
    selectRelease (.value releases) current = .ok chosen →
    (chosen = none ↔
      ¬ ∃ v, (∃ release, some release ∈ releases ∧ release.Names v) ∧ Greater v current) := by
  intro hall
  have hselect : selectRelease (.value emptySums) "1.0.0-r1".toList = .ok none := by decide
  refine (hall _ _ _ hselect).1 rfl ⟨"2.0.0-r1".toList, ⟨_, List.mem_cons_self, ?_⟩, ?_⟩
  · refine ⟨_, _, rfl, rfl, by decide, rfl, ⟨_, List.mem_cons_self, rfl⟩, _,
      List.mem_cons_of_mem _ List.mem_cons_self, baseFile "2.0.0-r1",
        ⟨"2.0.0-r1".toList, by decide⟩,
      rfl, by decide, rfl, by decide⟩
  · exact ⟨1, by decide, by decide⟩

def twoReleases : List (Option Release) :=
  [some (sampleRelease "1.0.0-r1" 512), some (sampleRelease "1.10.0-r2" 512), none,
    some (sampleRelease "1.9.0-r3" 512)]

theorem select_release_twoReleases : ∃ base,
    selectRelease (.value twoReleases) "1.0.0-r1".toList = .ok (some base) ∧
    base.version = "1.10.0-r2".toList ∧
    (∀ v, Offered twoReleases v → AtMost v base.version) ∧
    ∃ base', selectRelease (.value twoReleases.reverse) "1.0.0-r1".toList = .ok (some base') ∧
      compare base.version base'.version = .ok 0 := by
  have hselect : ∃ base, selectRelease (.value twoReleases) "1.0.0-r1".toList = .ok (some base) ∧
      base.version = "1.10.0-r2".toList :=
    ⟨⟨"1.10.0-r2".toList, baseFile "1.10.0-r2", 4096, "v1.10.0".toList, by decide⟩, by decide, rfl⟩
  obtain ⟨base, hbase, hversion⟩ := hselect
  obtain ⟨hnewest, hreordered, -⟩ := select_release_choice twoReleases "1.0.0-r1".toList
  obtain ⟨hiff, hsame⟩ := hreordered twoReleases.reverse ⟨twoReleases,
    List.forall₂_same.2 fun release _ => .same release, twoReleases.reverse_perm.symm⟩
  obtain ⟨chosen', hchosen'⟩ := hiff.1 ⟨_, hbase⟩
  refine ⟨base, hbase, hversion, ((hnewest _ hbase).2 base rfl).2.2, ?_⟩
  cases hsame _ _ hbase hchosen' with
  | some h => exact ⟨_, hchosen', h⟩

end Foxhole.RamUpdate
