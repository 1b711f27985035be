import Foxhole.RamBank

/-! Where the symbolic links of an accepted bank lead. -/
namespace Foxhole.RamBank
open Check Text Walk

variable {rows : List Row} {result : List Entry} {entry : Entry} {path target found : Text}
  {parts dir place : List Text}

/-! Splitting and joining. -/

theorem join_names : join (names path) = path := List.intercalate_splitOn '/'

theorem names_join (h : ∀ name ∈ parts, '/' ∉ name) (hne : parts ≠ []) :
    names (join parts) = parts := List.splitOn_intercalate '/' h hne

theorem slash_notMem : ∀ {path : Text}, ∀ name ∈ names path, '/' ∉ name
  | [] => by simp [names, List.splitOn_nil]
  | c :: rest => by
    have ih : ∀ name ∈ rest.splitOn '/', '/' ∉ name := @slash_notMem rest
    intro name hname
    rw [names, List.splitOn_cons_eq_if_modifyHead] at hname
    split at hname
    · rcases List.mem_cons.1 hname with rfl | hname
      · simp
      · exact ih name hname
    · rename_i hc
      cases hs : rest.splitOn '/' with
      | nil => exact absurd hs (List.splitOn_ne_nil '/' rest)
      | cons first later =>
        rw [hs] at hname ih
        rcases List.mem_cons.1 hname with rfl | hname
        · intro hmem
          rcases List.mem_cons.1 hmem with rfl | hmem
          · exact hc (by simp)
          · exact ih first List.mem_cons_self hmem
        · exact ih name (List.mem_cons_of_mem first hname)

theorem names_ne_nil : names path ≠ [] := List.splitOn_ne_nil '/' path

/-- What `files` has checked. -/
structure Bank (result : List Entry) : Prop where
  isPublic : ∀ entry ∈ result, publicPath entry.path = true
  kinds : ∀ entry ∈ result, entry.kind = .symlink ↔ entry.linkTarget.isSome = true
  parents : ∀ entry ∈ result, join (names entry.path).dropLast ≠ [] →
    isDirectory result (join (names entry.path).dropLast) = true
  links : ∀ entry ∈ result, ∀ target ∈ entry.linkTarget,
    ∃ found, link entry.path target = .ok found ∧ (lookup result found).isSome = true

theorem checkKind_ok {kind : Kind} {mode bytes : ℤ} {sha256 linkTarget : Field Text}
    (h : checkKind path kind mode bytes sha256 linkTarget = .ok entry) :
    entry.path = path ∧ (entry.kind = .symlink ↔ entry.linkTarget.isSome = true) := by
  cases kind with
  | directory =>
    simp only [checkKind, bind_eq_ok, pure_eq_ok] at h
    obtain ⟨_, -, rfl⟩ := h
    exact ⟨rfl, by simp⟩
  | file =>
    simp only [checkKind, bind_eq_ok, pure_eq_ok] at h
    obtain ⟨_, -, rfl⟩ := h
    exact ⟨rfl, by simp⟩
  | symlink =>
    cases linkTarget with
    | missing => cases h
    | invalid => cases h
    | value target =>
      simp only [checkKind, bind_eq_ok, pure_eq_ok] at h
      obtain ⟨_, -, _, -, rfl⟩ := h
      exact ⟨rfl, by simp⟩

theorem checkRow_ok {seen : List Text} {row : Row} (h : checkRow seen row = .ok entry) :
    (publicPath entry.path = true ∧ (entry.kind = .symlink ↔ entry.linkTarget.isSome = true)) ∧
      entry.path ∉ seen := by
  obtain ⟨exact', path, kind, mode, bytes, sha256, linkTarget⟩ := row
  cases path with
  | missing => simp [checkRow] at h
  | invalid => simp [checkRow] at h
  | value path =>
    cases mode with
    | missing => simp [checkRow] at h
    | invalid => simp [checkRow] at h
    | value mode =>
      cases bytes with
      | missing => simp [checkRow] at h
      | invalid => simp [checkRow] at h
      | value bytes =>
        cases kind with
        | none => simp [checkRow] at h
        | some kind =>
          simp only [checkRow, bind_eq_ok, require_eq_ok] at h
          obtain ⟨_, -, _, ⟨hpublic, hseen, -⟩, h⟩ := h
          obtain ⟨rfl, hkind⟩ := checkKind_ok h
          exact ⟨⟨hpublic, hkind⟩, hseen⟩

theorem joined_ok {u : Unit} (h : joined result entry = .ok u) :
    (join (names entry.path).dropLast ≠ [] →
      isDirectory result (join (names entry.path).dropLast) = true) ∧
    ∀ target ∈ entry.linkTarget, ∃ found, link entry.path target = .ok found ∧
      (lookup result found).isSome = true := by
  simp only [joined, bind_eq_ok, require_eq_ok] at h
  obtain ⟨_, hparent, h⟩ := h
  refine ⟨fun hne => hparent (List.length_pos_iff.2 hne), ?_⟩
  rintro target htarget
  rw [Option.mem_def.1 htarget] at h
  simp only [bind_eq_ok, require_eq_ok] at h
  exact h

theorem files_ok (h : files rows = .ok result) : Bank result := by
  simp only [files, bind_eq_ok, require_eq_ok, pure_eq_ok] at h
  obtain ⟨_, -, result, hscan, _, -, _, hjoined, _, -, rfl⟩ := h
  have hrows := scanned_of_scan (P := fun _ entry => publicPath entry.path = true ∧
    (entry.kind = .symlink ↔ entry.linkTarget.isSome = true)) (fun seen row entry hrow => by
      obtain ⟨hpassed, hseen⟩ := checkRow_ok hrow
      exact ⟨hpassed, List.singleton_disjoint.2 hseen⟩) hscan
  have hpassed := hrows.forall_mem (fun _ _ hentry => hentry)
  have hall : ∀ entry ∈ result, joined result entry = .ok () := forM_eq_ok.1 hjoined
  exact ⟨fun entry hentry => (hpassed entry hentry).1, fun entry hentry => (hpassed entry hentry).2,
    fun entry hentry => (joined_ok (hall entry hentry)).1,
    fun entry hentry => (joined_ok (hall entry hentry)).2⟩

/-! The names of an entry. -/

theorem lookup_mem (h : lookup result path = some entry) : entry ∈ result ∧ entry.path = path := by
  refine ⟨List.mem_of_find?_eq_some h, ?_⟩
  simpa using List.find?_some h

theorem tree_eq (h : ∀ name ∈ place, '/' ∉ name) (hne : place ≠ []) :
    tree result place = (lookup result (join place)).map Entry.node := by
  have hsame : ∀ entry : Entry, names entry.path = place ↔ entry.path = join place := by
    intro entry
    constructor
    · rintro rfl
      exact join_names.symm
    · intro he
      rw [he, names_join h hne]
  simp only [tree, lookup, hsame]

theorem intercalate_append {ps : List Text} {p : Text} (h : ps ≠ []) :
    join (ps ++ [p]) = join ps ++ '/' :: p := by
  induction ps with
  | nil => exact absurd rfl h
  | cons q ps ih =>
    cases ps with
    | nil => simp [join, List.intercalate]
    | cons r ps =>
      have hrest := ih (by simp)
      simp only [join, List.intercalate, List.cons_append, List.intersperse_cons_cons,
        List.flatten_cons] at hrest ⊢
      rw [hrest]
      simp

/-- A path without a slash at either end has no empty name at its ends. -/
theorem last_ne_nil {ps : List Text} {p : Text} (hrel : relative (join (ps ++ [p])) = true) :
    p ≠ [] ∧ (ps ≠ [] → join ps ≠ []) := by
  simp only [relative, Bool.and_eq_true, decide_eq_true_eq] at hrel
  obtain ⟨⟨⟨⟨⟨⟨hlen, -⟩, -⟩, hhead⟩, hlast⟩, -⟩, -⟩ := hrel
  by_cases hps : ps = []
  · subst hps
    refine ⟨?_, fun h => absurd rfl h⟩
    rintro rfl
    simp [join, List.intercalate] at hlen
  · rw [intercalate_append hps] at hhead hlast
    constructor
    · rintro rfl
      simp at hlast
    · intro _ hnil
      rw [hnil] at hhead
      simp at hhead

theorem relative_of_public (h : publicPath path = true) : relative path = true := by
  simp only [publicPath, Bool.and_eq_true] at h
  exact h.1.1.1.1

theorem isDirectory_mem (h : isDirectory result path = true) :
    ∃ entry ∈ result, entry.path = path ∧ entry.kind = .directory ∧
      lookup result path = some entry := by
  unfold isDirectory at h
  cases hl : lookup result path with
  | none => rw [hl] at h; cases h
  | some entry =>
    rw [hl] at h
    obtain ⟨hmem, hpath⟩ := lookup_mem hl
    exact ⟨entry, hmem, hpath, by simpa using h, rfl⟩

/-- No entry has an empty name: what is before its last one is the path of a directory. -/
theorem Bank.names_ne (h : Bank result) : ∀ (n : ℕ) (entry : Entry), entry ∈ result →
    (names entry.path).length = n → ∀ name ∈ names entry.path, name ≠ []
  | 0, entry, _, hn => by
    have := List.length_eq_zero_iff.1 hn
    exact absurd this names_ne_nil
  | n + 1, entry, hentry, hn => by
    have hsplit := List.dropLast_append_getLast (l := names entry.path) names_ne_nil
    have hrel : relative (join ((names entry.path).dropLast ++
        [(names entry.path).getLast names_ne_nil])) = true := by
      rw [hsplit, join_names]
      exact relative_of_public (h.isPublic entry hentry)
    obtain ⟨hlast, hparent⟩ := last_ne_nil hrel
    have hbefore : ∀ name ∈ (names entry.path).dropLast, name ≠ [] := by
      by_cases hps : (names entry.path).dropLast = []
      · simp [hps]
      · obtain ⟨parent, hmem, hpath, -, -⟩ :=
          isDirectory_mem (h.parents entry hentry (hparent hps))
        have hnames : names parent.path = (names entry.path).dropLast := by
          rw [hpath,
            names_join (fun name hname => slash_notMem name (List.mem_of_mem_dropLast hname))
            hps]
        have ih := h.names_ne n parent hmem (by rw [hnames, List.length_dropLast]; omega)
        rwa [hnames] at ih
    intro name hname
    rw [← hsplit] at hname
    rcases List.mem_append.1 hname with hname | hname
    · exact hbefore name hname
    · exact List.mem_singleton.1 hname ▸ hlast

theorem tree_isSome (h : (tree result place).isSome = true) :
    ∃ entry ∈ result, names entry.path = place := by
  unfold tree at h
  cases hf : result.find? fun entry => names entry.path = place with
  | none => rw [hf] at h; cases h
  | some entry => exact ⟨entry, List.mem_of_find?_eq_some hf, by simpa using List.find?_some hf⟩

theorem join_ne_nil (h : ∀ name ∈ parts, name ≠ []) (hne : parts ≠ []) : join parts ≠ [] := by
  intro hnil
  obtain ⟨first, rest, rfl⟩ := List.exists_cons_of_ne_nil hne
  have hfirst := h first List.mem_cons_self
  cases rest with
  | nil => exact hfirst (by simpa [join, List.intercalate] using hnil)
  | cons second rest =>
    simp only [join, List.intercalate, List.intersperse_cons_cons, List.flatten_cons,
      List.append_eq_nil_iff] at hnil
    exact hfirst hnil.1

/-- What is above an entry is a directory. -/
theorem Bank.closed (h : Bank result) : Closed (tree result) := by
  intro dir a hdir hsome
  obtain ⟨entry, hentry, hnames⟩ := tree_isSome hsome
  have hne := h.names_ne _ entry hentry rfl
  rw [hnames] at hne
  have hslash : ∀ name ∈ dir, '/' ∉ name := fun name hname =>
    slash_notMem name (hnames ▸ List.mem_append_left _ hname)
  have hbefore : (names entry.path).dropLast = dir := by rw [hnames, List.dropLast_concat]
  have hjoin : join dir ≠ [] :=
    join_ne_nil (fun name hname => hne name (List.mem_append_left _ hname)) hdir
  have hparent := h.parents entry hentry (by rwa [hbefore])
  rw [hbefore] at hparent
  obtain ⟨parent, -, -, hkind, hlookup⟩ := isDirectory_mem hparent
  rw [tree_eq hslash hdir, hlookup]
  simp [Entry.node, hkind]

/-! What `link` computes. -/

/-- One name of a target, taken by itself and as the rest of a text. -/
theorem linkPiece_lexical {targets : List Text} :
    targets.foldlM linkPiece dir = .ok parts → lexical dir (targets.map piece) = some parts := by
  induction targets generalizing dir with
  | nil =>
    intro h
    simpa [lexical] using h
  | cons name targets ih =>
    intro h
    rw [List.foldlM_cons, bind_eq_ok] at h
    obtain ⟨next, hnext, h⟩ := h
    have hrest := ih h
    unfold linkPiece at hnext
    rw [List.map_cons]
    unfold piece
    split at hnext
    · rename_i hdot
      cases hnext
      rw [if_pos hdot]
      exact hrest
    · rename_i hdot
      rw [if_neg hdot]
      split at hnext
      · rename_i hup
        simp only [bind_eq_ok, require_eq_ok, pure_eq_ok] at hnext
        obtain ⟨_, hlen, rfl⟩ := hnext
        rw [if_pos hup, lexical, if_neg hlen]
        exact hrest
      · rename_i hup
        simp only [bind_eq_ok, require_eq_ok, pure_eq_ok] at hnext
        obtain ⟨_, -, rfl⟩ := hnext
        rw [if_neg hup]
        exact hrest

theorem linkPiece_slash {targets : List Text} (ht : ∀ name ∈ targets, '/' ∉ name)
    (hd : ∀ name ∈ dir, '/' ∉ name) (h : targets.foldlM linkPiece dir = .ok parts) :
    ∀ name ∈ parts, '/' ∉ name := by
  induction targets generalizing dir with
  | nil =>
    obtain rfl : dir = parts := by simpa using h
    exact hd
  | cons name targets ih =>
    rw [List.foldlM_cons, bind_eq_ok] at h
    obtain ⟨next, hnext, h⟩ := h
    refine ih (fun n hn => ht n (List.mem_cons_of_mem name hn)) ?_ h
    unfold linkPiece at hnext
    split at hnext
    · cases hnext
      exact hd
    · split at hnext
      · simp only [bind_eq_ok, pure_eq_ok] at hnext
        obtain ⟨_, -, rfl⟩ := hnext
        exact fun n hn => hd n (List.mem_of_mem_dropLast hn)
      · simp only [bind_eq_ok, pure_eq_ok] at hnext
        obtain ⟨_, -, rfl⟩ := hnext
        intro n hn
        rcases List.mem_append.1 hn with hn | hn
        · exact hd n hn
        · exact List.mem_singleton.1 hn ▸ ht name List.mem_cons_self

/-- `link` takes `..` off the text. -/
theorem link_lexical (h : link path target = .ok found) (hrel : target.head? ≠ some '/') :
    ∃ place, lexical (names path).dropLast (pieces target) = some place ∧
      place.head? = (names path).head? ∧ (∀ name ∈ place, '/' ∉ name) ∧ place ≠ [] ∧
      found = join place := by
  simp only [link, bind_eq_ok, require_eq_ok] at h
  obtain ⟨_, -, h⟩ := h
  rw [if_neg hrel] at h
  simp only [bind_eq_ok, require_eq_ok, pure_eq_ok] at h
  obtain ⟨place, hfold, _, hhead, rfl⟩ := h
  refine ⟨place, linkPiece_lexical hfold, hhead, ?_, ?_, rfl⟩
  · exact linkPiece_slash (fun _ => slash_notMem _)
      (fun name hname => slash_notMem name (List.mem_of_mem_dropLast hname)) hfold
  · rintro rfl
    have hnone := hhead.symm
    rw [List.head?_nil, List.head?_eq_none_iff] at hnone
    exact names_ne_nil hnone

theorem link_absolute (h : link path target = .ok found) (habs : target.head? = some '/') :
    path = nativeCaAlias ∧ target = nativeCaTarget ∧ found = nativeCaFile := by
  simp only [link, bind_eq_ok, require_eq_ok] at h
  obtain ⟨_, -, h⟩ := h
  rw [if_pos habs] at h
  simp only [bind_eq_ok, require_eq_ok, pure_eq_ok] at h
  obtain ⟨_, ⟨hpath, htarget⟩, rfl⟩ := h
  exact ⟨hpath, htarget, rfl⟩

/-- Followed by the kernel, a link stays below its own top directory and ends at the entry that
`link` computed. -/
def Contained (result : List Entry) (path target : Text) : Prop :=
  ∃ place, link path target = .ok (join place) ∧ place.head? = (names path).head? ∧
    (tree result place).isSome = true ∧
    walk (tree result) maxLinks (names path).dropLast (pieces target) = some place

/-- A link whose target goes on through directories only is contained; and if its target goes on
through no other link, then nothing else is. Whatever the links, nothing leads to the private
directory, and the one link that starts at `/` is the alias of the native certificates. -/
theorem bank_contained (h : files rows = .ok result) :
    (∀ entry ∈ result, ∀ target ∈ entry.linkTarget, target.head? ≠ some '/' →
      (Straight (tree result) (names entry.path).dropLast (pieces target) →
        Contained result entry.path target) ∧
      (LinkFree (tree result) (names entry.path).dropLast (pieces target) →
        (Contained result entry.path target ↔
          Straight (tree result) (names entry.path).dropLast (pieces target)))) ∧
    (∀ entry ∈ result, ∀ target ∈ entry.linkTarget, target.head? = some '/' →
      entry.path = nativeCaAlias ∧ link entry.path target = .ok nativeCaFile) ∧
    ∀ n dir pieces place, (tree result dir).isSome = true →
      walk (tree result) n dir pieces = some place → ¬ privateRoot <+: place := by
  have hbank := files_ok h
  refine ⟨fun entry hentry target htarget hrel => ?_, fun entry hentry target htarget habs => ?_,
    fun n dir pieces place hdir hwalk hprivate => ?_⟩
  · obtain ⟨found, hlink, hfound⟩ := hbank.links entry hentry target htarget
    obtain ⟨place, hlexical, hhead, hslash, hne, rfl⟩ := link_lexical hlink hrel
    have hplace : (tree result place).isSome = true := by
      rw [tree_eq hslash hne, Option.isSome_map]
      exact hfound
    have hstraight : Straight (tree result) (names entry.path).dropLast (pieces target) →
        Contained result entry.path target := fun hs =>
      ⟨place, hlink, hhead, hplace, walk_straight hs hlexical hplace⟩
    refine ⟨hstraight, fun hfree => ⟨?_, hstraight⟩⟩
    rintro ⟨_, -, -, -, hwalk⟩
    exact straight_of_walk hfree hwalk
  · obtain ⟨found, hlink, -⟩ := hbank.links entry hentry target htarget
    obtain ⟨hpath, -, rfl⟩ := link_absolute hlink habs
    exact ⟨hpath, hlink⟩
  · obtain ⟨entry, hentry, rfl⟩ := tree_isSome (walk_isSome hbank.closed hdir hwalk)
    have hpublic := hbank.isPublic entry hentry
    simp only [publicPath, Bool.and_eq_true, Bool.not_eq_true'] at hpublic
    rw [List.isPrefixOf_iff_prefix.2 hprivate] at hpublic
    exact absurd hpublic.1.1.2 (by decide)

/-! A bank with a link to its own top directory, and one that goes on through it. -/

def directoryRow (path : String) : Row where
  path := .value path.toList
  kind := some .directory
  mode := .value 493
  bytes := .value 0
  sha256 := .missing
  linkTarget := .missing

def fileRow (path : String) : Row where
  path := .value path.toList
  kind := some .file
  mode := .value 420
  bytes := .value 5
  sha256 := .value (List.replicate 64 'a')
  linkTarget := .missing

def linkRow (path target : String) : Row where
  path := .value path.toList
  kind := some .symlink
  mode := .value 511
  bytes := .value target.toList.length
  sha256 := .missing
  linkTarget := .value target.toList

def directoryEntry (path : String) : Entry := ⟨path.toList, .directory, 493, 0, none, none⟩

def fileEntry (path : String) : Entry :=
  ⟨path.toList, .file, 420, 5, some (List.replicate 64 'a'), none⟩

def linkEntry (path target : String) : Entry :=
  ⟨path.toList, .symlink, 511, target.toList.length, none, some target.toList⟩

def bankRows (target : String) : List Row :=
  [directoryRow "root", directoryRow "adapters", directoryRow "root/a", linkRow "root/a/s" "..",
    fileRow "root/a/x", linkRow "root/l" target]

def bankEntries (target : String) : List Entry :=
  [directoryEntry "root", directoryEntry "adapters", directoryEntry "root/a",
    linkEntry "root/a/s" "..", fileEntry "root/a/x", linkEntry "root/l" target]

def top : List Text := ["root".toList]

/-- For `link` the target is root/a/x; the kernel is in root after a/s, and leaves it. -/
theorem escaping_link :
    files (bankRows "a/s/../x") = .ok (bankEntries "a/s/../x") ∧
    link "root/l".toList "a/s/../x".toList = .ok "root/a/x".toList ∧
    walk (tree (bankEntries "a/s/../x")) maxLinks top (pieces "a/s/.".toList) = some top ∧
    walk (tree (bankEntries "a/s/../x")) maxLinks top (pieces "a/s/../x".toList) = none ∧
    ¬ Contained (bankEntries "a/s/../x") "root/l".toList "a/s/../x".toList := by
  have hwalk : walk (tree (bankEntries "a/s/../x")) maxLinks top (pieces "a/s/../x".toList) =
      none := by
    decide +kernel
  refine ⟨by decide, by decide, by decide, hwalk, ?_⟩
  rintro ⟨place, -, -, -, hplace⟩
  have hdir : (names "root/l".toList).dropLast = top := by decide +kernel
  rw [hdir, hwalk] at hplace
  cases hplace

theorem contained_plain : Contained (bankEntries "a/x") "root/l".toList "a/x".toList := by
  have hfiles : files (bankRows "a/x") = .ok (bankEntries "a/x") := by decide
  refine ((bank_contained hfiles).1 (linkEntry "root/l" "a/x") (by simp [bankEntries]) _ rfl
    (by decide)).1 ?_
  have hpieces : pieces "a/x".toList = [.name ['a'], .name ['x']] := by decide
  have hdir : (names "root/l".toList).dropLast = top := by decide
  change Straight _ (names "root/l".toList).dropLast (pieces "a/x".toList)
  rw [hpieces, hdir]
  exact ⟨fun _ => by decide, fun hne => absurd rfl hne, trivial⟩

end Foxhole.RamBank
