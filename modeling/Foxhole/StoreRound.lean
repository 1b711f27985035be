import Foxhole.StoreFiles

/-! The private store on a disk that nothing goes wrong on: what is written is read again. -/
namespace Foxhole.PrivateStore
open Text Threads

/-- The files, and a number no node has yet. -/
structure Disk where
  files : Files
  next : ℕ

namespace Disk

def newDirectory (d : Disk) : Node := ⟨.directory, 0, 2, 0o700, d.next + 1, [], [], none⟩

def newFile (d : Disk) (i : ℕ) : Node := ⟨.file, 0, 1, 0o600, d.next + 1, [], [], some i⟩

def add (d : Disk) (path : Text) (node : Node) : Disk :=
  ⟨d.files.add path d.next node, d.next + 1⟩

def isDirectory (d : Disk) (path : Text) : Bool :=
  (d.files.node path).any (·.kind = .directory)

/-- What `i` is answered, the random bytes being `seed`. -/
def answer (i : ℕ) (seed : List UInt8) : (o : Op) → Disk → Answer o × Disk
  | .lstat path, d => ((d.files.node path).map Node.info, d)
  | .mkdir path, d =>
    if d.files.names path = none ∧ d.files.nodes d.next = none ∧ d.isDirectory (dirname path) then
      (true, d.add path d.newDirectory)
    else (false, d)
  | .random _, d => (some seed, d)
  | .create path, d =>
    if d.files.names path = none ∧ d.files.nodes d.next = none ∧ d.isDirectory (dirname path) then
      (some d.next, d.add path (d.newFile i))
    else (none, d)
  | .write file raw, d =>
    match d.files.nodes file with
    | none => (none, d)
    | some node => (some raw.length,
      { d with files := d.files.put file { node with accepted := node.accepted ++ raw } })
  | .flush file, d =>
    match d.files.nodes file with
    | none => (false, d)
    | some node =>
      (true, { d with files := d.files.put file { node with content := node.accepted } })
  | .close _, d => ((), d)
  | .rename old new, d =>
    match d.files.names old with
    | none => (false, d)
    | some k =>
      match d.files.nodes k with
      | none => (false, d)
      | some node =>
        if (d.files.node new).all (·.kind ≠ .directory) ∧ d.isDirectory (dirname new) then
          (true, { d with files := d.files.move i old new k node })
        else (false, d)
  | .unlink path, d =>
    if (d.files.node path).any (·.kind ≠ .directory) then
      (true, { d with files := d.files.drop path })
    else (false, d)
  | .openRead path, d =>
    match d.files.names path with
    | none => (none, d)
    | some k => (if (d.files.nodes k).any (·.kind ≠ .link) then some k else none, d)
  | .fetch file start n, d =>
    ((d.files.nodes file).bind fun node =>
      if node.kind = .file then some ((node.content.drop start).take n) else none, d)

/-- No node has a number from here on, the names name nodes, and what is read was written. -/
structure Sound (d : Disk) : Prop where
  free : ∀ k, d.next ≤ k → d.files.nodes k = none
  named : ∀ path k, d.files.names path = some k → ∃ node, d.files.nodes k = some node
  taken : ∀ k node, d.files.nodes k = some node → node.content <+: node.accepted

variable {d : Disk} {i : ℕ} {seed : List UInt8} {path : Text} {k : ℕ} {node : Node}

theorem Sound.add (h : d.Sound) (hnode : node.content <+: node.accepted) :
    (d.add path node).Sound where
  free k hk := by
    have hk : d.next + 1 ≤ k := hk
    have hne : k ≠ d.next := by omega
    simpa [Disk.add, Files.add, Function.update_of_ne hne] using h.free k (by omega)
  named p m hm := by
    by_cases hmk : m = d.next
    · exact ⟨node, by simp [Disk.add, Files.add, hmk]⟩
    · have hp : p ≠ path := by
        rintro rfl
        exact hmk (by simpa [Disk.add, Files.add] using hm.symm)
      obtain ⟨old, hold⟩ :=
        h.named p m (by simpa [Disk.add, Files.add, Function.update_of_ne hp] using hm)
      exact ⟨old, by simpa [Disk.add, Files.add, Function.update_of_ne hmk] using hold⟩
  taken m old hold := by
    by_cases hmk : m = d.next
    · subst hmk
      have heq : node = old := by simpa [Disk.add, Files.add] using hold
      rwa [← heq]
    · exact h.taken m old (by simpa [Disk.add, Files.add, Function.update_of_ne hmk] using hold)

theorem Sound.put (h : d.Sound) {old : Node} (hk : d.files.nodes k = some old)
    (hnode : node.content <+: node.accepted) : Sound { d with files := d.files.put k node } where
  free m hm := by
    have hne : m ≠ k := by
      rintro rfl
      rw [h.free m hm] at hk
      cases hk
    simpa [Files.put, Function.update_of_ne hne] using h.free m hm
  named p m hm := by
    by_cases hmk : m = k
    · exact ⟨node, by simp [Files.put, hmk]⟩
    · obtain ⟨old, hold⟩ := h.named p m hm
      exact ⟨old, by simpa [Files.put, Function.update_of_ne hmk] using hold⟩
  taken m old' hold := by
    by_cases hmk : m = k
    · subst hmk
      have heq : node = old' := by simpa [Files.put] using hold
      rwa [← heq]
    · exact h.taken m old' (by simpa [Files.put, Function.update_of_ne hmk] using hold)

theorem Sound.drop (h : d.Sound) : Sound { d with files := d.files.drop path } where
  free := h.free
  named p m hm := by
    have hp : p ≠ path := by
      rintro rfl
      simp [Files.drop] at hm
    exact h.named p m (by simpa [Files.drop, Function.update_of_ne hp] using hm)
  taken := h.taken

theorem Sound.move (h : d.Sound) {old new : Text} (hk : d.files.nodes k = some node) :
    Sound { d with files := d.files.move i old new k node } := by
  have hput : Sound { d with files := d.files.put k { node with writer := none } } :=
    h.put hk (h.taken k node hk)
  refine ⟨hput.free, fun p m hm => ?_, hput.taken⟩
  by_cases hnew : p = new
  · subst hnew
    have hkm : k = m := by simpa [Files.move] using hm
    exact ⟨{ node with writer := none }, by simp [Files.move, hkm]⟩
  · have hold : p ≠ old := by
      rintro rfl
      simp [Files.move, Function.update_of_ne hnew] at hm
    exact hput.named p m
      (by simpa [Files.move, Files.put, Function.update_of_ne hnew,
        Function.update_of_ne hold] using hm)

/-- What this disk answers is what may happen. -/
theorem answer_does (blind : Prop) (h : d.Sound) (o : Op) :
    Does blind i d.files o (answer i seed o d).1 (answer i seed o d).2.files ∧
      (answer i seed o d).2.Sound := by
  cases o with
  | lstat path => exact ⟨.lstat d.files path, h⟩
  | mkdir path =>
    simp only [answer]
    split
    · next hfree => exact ⟨.mkdir _ _ _ _ hfree.1 hfree.2.1 rfl rfl, h.add List.nil_prefix⟩
    · exact ⟨.mkdirFails _ _, h⟩
  | random n => exact ⟨.random _ _ _, h⟩
  | create path =>
    simp only [answer]
    split
    · next hfree =>
      exact ⟨.create _ _ _ _ hfree.1 hfree.2.1 rfl rfl rfl rfl, h.add List.nil_prefix⟩
    · exact ⟨.createFails _ _, h⟩
  | write file raw =>
    simp only [answer]
    split
    · exact ⟨.writeFails _ _ _, h⟩
    · next node hnode =>
      have hdoes : Does blind i d.files (.write file raw) (some raw.length)
          (d.files.put file { node with accepted := node.accepted ++ raw.take raw.length }) :=
        .write _ _ _ _ _ _ _ hnode le_rfl List.prefix_rfl
          ((h.taken _ _ hnode).trans (List.prefix_append _ _)) (by simp)
      rw [List.take_length] at hdoes
      exact ⟨hdoes, h.put hnode ((h.taken _ _ hnode).trans (List.prefix_append _ _))⟩
  | flush file =>
    simp only [answer]
    split
    · exact ⟨.flushFails _ _, h⟩
    · next node hnode =>
      exact ⟨.flush _ _ _ _ _ hnode (h.taken _ _ hnode) List.prefix_rfl fun _ => rfl,
        h.put hnode List.prefix_rfl⟩
  | close file => exact ⟨.closeFails _ _, h⟩
  | rename old new =>
    simp only [answer]
    split
    · exact ⟨.renameFails _ _ _, h⟩
    · next k hold =>
      split
      · exact ⟨.renameFails _ _ _, h⟩
      · next node hnode =>
        split
        · next hnew =>
          refine ⟨.rename _ _ _ _ _ hold hnode fun target htarget => ?_, h.move hnode⟩
          rw [Option.mem_def] at htarget
          simpa [htarget] using hnew.1
        · exact ⟨.renameFails _ _ _, h⟩
  | unlink path =>
    simp only [answer]
    split
    · next hfile =>
      obtain ⟨node, hnode, hkind⟩ := (Option.any_eq_true _ _).1 hfile
      exact ⟨.unlink _ _ node hnode (of_decide_eq_true hkind), h.drop⟩
    · exact ⟨.unlinkFails _ _, h⟩
  | openRead path =>
    simp only [answer]
    split
    · exact ⟨.openFails _ _, h⟩
    · next k hk =>
      refine ⟨?_, h⟩
      split
      · next hany =>
        obtain ⟨node, hnode, hkind⟩ := (Option.any_eq_true _ _).1 hany
        exact .openRead _ _ k node hk hnode (of_decide_eq_true hkind)
      · exact .openFails _ _
  | fetch file start n =>
    refine ⟨?_, h⟩
    simp only [answer]
    cases hnode : d.files.nodes file with
    | none => exact .fetchFails _ _ _ _
    | some node =>
      rw [Option.bind_some]
      split
      · next hkind =>
        exact .fetch _ _ _ _ node _ hnode hkind List.prefix_rfl fun hend => hend
      · exact .fetchFails _ _ _ _

/-! Runs on it. -/

variable {d' : Disk} {n : ℕ} {o : Op} {raw : Text} {limit : ℕ}

def lstat (d : Disk) (path : Text) : Option Info := (d.files.node path).map Node.info

theorem ran_ask {r : Answer o} (h : answer i seed o d = (r, d')) :
    Ran (answer i seed) (ask o) d r d' := by
  have hrun : (ask o).run.exec (answer i seed) d =
      (.ok (answer i seed o d).1, (answer i seed o d).2) :=
    rfl
  rw [Ran, hrun, h]

theorem ran_lstat : Ran (answer i seed) (ask (.lstat path)) d (d.lstat path) d := rfl

theorem ran_ensure {p : Prop} [Decidable p] (hp : p) : Ran (answer i seed) (ensure p) d () d := by
  unfold ensure
  rw [if_pos hp]
  rfl

/-- A path that can be a private directory. -/
def Good (d : Disk) (path : Text) : Prop :=
  d.files.node path = none ∨ directoryMetadata (d.lstat path) = true

/-- `P` holds of a directory of the store and of those above it, the uppermost of which is in a
directory. -/
inductive Along (d : Disk) (P : Text → Prop) : Text → Prop
  | top {path : Text} : allowed path = true →
    ¬ (path ≠ "/tmp/foxhole".toList ∧ path ≠ "/etc/foxhole".toList) →
    d.isDirectory (dirname path) = true → P path → Along d P path
  | inside {path : Text} : allowed path = true →
    path ≠ "/tmp/foxhole".toList ∧ path ≠ "/etc/foxhole".toList → Along d P (dirname path) →
    P path → Along d P path

/-- A directory below which the store may keep its files: it and those above it are private, or
there is none. -/
abbrev Private (d : Disk) : Text → Prop := d.Along d.Good

/-- It and those above it are there, and private. -/
abbrev Ready (d : Disk) : Text → Prop := d.Along fun path => directoryMetadata (d.lstat path) = true

/-- Nothing is lost, and what is new are private directories at short paths. -/
structure Grown (n : ℕ) (d d' : Disk) : Prop where
  sound : d'.Sound
  names : ∀ p k, d.files.names p = some k → d'.files.names p = some k
  nodes : ∀ k node, d.files.nodes k = some node → d'.files.nodes k = some node
  made : ∀ p, d.files.names p = none →
    d'.files.names p = none ∨ directoryMetadata (d'.lstat p) = true ∧ p.length ≤ n

theorem Grown.kept (h : Grown n d d') {p : Text} (hp : d.files.node p = some node) :
    d'.files.node p = some node := by
  obtain ⟨k, hk, hnode⟩ := Option.bind_eq_some_iff.1 hp
  simp [Files.node, h.names p k hk, h.nodes k node hnode]

theorem Sound.names_none (h : d.Sound) {p : Text} (hp : d.files.node p = none) :
    d.files.names p = none := by
  cases hk : d.files.names p with
  | none => rfl
  | some k =>
    obtain ⟨node, hnode⟩ := h.named p k hk
    simp [Files.node, hk, hnode] at hp

theorem node_none {p : Text} (hp : d.files.names p = none) : d.files.node p = none := by
  simp [Files.node, hp]

theorem Grown.good (h : Grown n d d') (hs : d.Sound) {p : Text} (hp : d.Good p) : d'.Good p := by
  cases hnode : d.files.node p with
  | none =>
    rcases h.made p (hs.names_none hnode) with hnone | hmade
    · exact .inl (node_none hnone)
    · exact .inr hmade.1
  | some node =>
    refine .inr ?_
    rw [lstat, h.kept hnode, ← hnode]
    exact hp.resolve_left (by simp [hnode])

theorem Grown.trans {d'' : Disk} {m : ℕ} (h : Grown n d d') (h' : Grown m d' d'') (hn : n ≤ m) :
    Grown m d d'' where
  sound := h'.sound
  names p k hk := h'.names p k (h.names p k hk)
  nodes k node hk := h'.nodes k node (h.nodes k node hk)
  made p hp := by
    rcases h.made p hp with hnone | ⟨hdir, hlen⟩
    · exact h'.made p hnone
    · refine .inr ⟨?_, by omega⟩
      cases hnode : d'.files.node p with
      | none => simp [lstat, hnode, directoryMetadata] at hdir
      | some node =>
        rw [lstat, h'.kept hnode]
        rwa [lstat, hnode] at hdir

theorem Along.mono {P P' : Text → Prop} {p : Text} (h : d.Along P p)
    (hdir : ∀ q, q.length < p.length → d.isDirectory q = true → d'.isDirectory q = true)
    (hP : ∀ q, q.length ≤ p.length → P q → P' q) : d'.Along P' p := by
  induction h with
  | top hallowed htop habove hp =>
    exact .top hallowed htop (hdir _ (dirname_length (one_lt_length hallowed)) habove)
      (hP _ le_rfl hp)
  | inside hallowed hbelow _ hp ih =>
    have hshorter := dirname_length (one_lt_length hallowed)
    exact .inside hallowed hbelow
      (ih (fun q hq => hdir q (by omega)) fun q hq => hP q (by omega)) (hP _ le_rfl hp)

theorem isDirectory_of_metadata {p : Text} (h : directoryMetadata (d.lstat p) = true) :
    d.isDirectory p = true := by
  cases hnode : d.files.node p with
  | none => simp [lstat, hnode, directoryMetadata] at h
  | some node =>
    simp only [lstat, hnode, directoryMetadata, Option.map_some, Option.any_some, Node.info,
      decide_eq_true_eq] at h
    simp [isDirectory, hnode, h.1]

theorem Along.isDirectory {p : Text} (h : d.Ready p) : d.isDirectory p = true := by
  cases h with
  | top _ _ _ hp => exact isDirectory_of_metadata hp
  | inside _ _ _ hp => exact isDirectory_of_metadata hp

theorem Grown.isDirectory (h : Grown n d d') {p : Text} (hp : d.isDirectory p = true) :
    d'.isDirectory p = true := by
  obtain ⟨node, hnode, hkind⟩ := (Option.any_eq_true _ _).1 hp
  rw [Disk.isDirectory, h.kept hnode]
  exact hkind

theorem Grown.metadata (h : Grown n d d') {p : Text}
    (hp : directoryMetadata (d.lstat p) = true) : directoryMetadata (d'.lstat p) = true := by
  cases hnode : d.files.node p with
  | none => simp [lstat, hnode, directoryMetadata] at hp
  | some node =>
    rw [lstat, h.kept hnode]
    rwa [lstat, hnode] at hp

theorem Grown.ready (h : Grown n d d') {p : Text} (hp : d.Ready p) : d'.Ready p :=
  hp.mono (fun _ _ hq => h.isDirectory hq) fun _ _ hq => h.metadata hq

theorem grown_refl (h : d.Sound) : Grown n d d :=
  ⟨h, fun _ _ h => h, fun _ _ h => h, fun _ h => .inl h⟩

theorem ownDirectory_ran (hs : d.Sound) (hpath : d.Good path)
    (habove : d.isDirectory (dirname path) = true) :
    ∃ info d', Ran (answer i seed) (ownDirectory path) d info d' ∧ Grown path.length d d' ∧
      directoryMetadata (d'.lstat path) = true := by
  cases hnode : d.files.node path with
  | some node =>
    have hdir := hpath.resolve_left (by simp [hnode])
    refine ⟨d.lstat path, d, Ran.bind ran_lstat ?_, grown_refl hs, hdir⟩
    rw [if_neg (by simp [lstat, hnode])]
    exact Ran.bind (ran_ensure hdir) rfl
  | none =>
    have hname := hs.names_none hnode
    have hnext := hs.free d.next le_rfl
    have hmkdir : answer i seed (.mkdir path) d = (true, d.add path d.newDirectory) :=
      if_pos ⟨hname, hnext, habove⟩
    have hmade : (d.add path d.newDirectory).lstat path = some d.newDirectory.info := by
      simp [lstat, Files.node, Disk.add, Files.add]
    have hdir : directoryMetadata (some d.newDirectory.info) = true := by
      simp [directoryMetadata, newDirectory, Node.info]
    refine ⟨some d.newDirectory.info, d.add path d.newDirectory, Ran.bind ran_lstat ?_, ?_,
      by rw [hmade]; exact hdir⟩
    · rw [if_pos (by simp [lstat, hnode])]
      refine Ran.bind (ran_ask hmkdir) (Ran.bind (ran_ensure rfl) (Ran.bind ran_lstat ?_))
      rw [hmade]
      exact Ran.bind (ran_ensure hdir) rfl
    · refine ⟨hs.add List.nil_prefix, fun p k hk => ?_, fun k old hk => ?_, fun p hp => ?_⟩
      · have hp : p ≠ path := by
          rintro rfl
          rw [hname] at hk
          cases hk
        simpa [Disk.add, Files.add, Function.update_of_ne hp] using hk
      · have hne : k ≠ d.next := by
          rintro rfl
          rw [hnext] at hk
          cases hk
        simpa [Disk.add, Files.add, Function.update_of_ne hne] using hk
      · by_cases hpp : p = path
        · subst hpp
          exact .inr ⟨by rw [hmade]; exact hdir, le_rfl⟩
        · exact .inl (by simpa [Disk.add, Files.add, Function.update_of_ne hpp] using hp)

theorem directory_ran (hs : d.Sound) (h : d.Private path) :
    ∃ info d', Ran (answer i seed) (directory path) d info d' ∧ Grown path.length d d' ∧
      d'.Ready path := by
  induction h with
  | top hallowed htop habove hgood =>
    obtain ⟨info, d', hran, hgrown, hdir⟩ := ownDirectory_ran hs hgood habove
    refine ⟨info, d', ?_, hgrown, .top hallowed htop (hgrown.isDirectory habove) hdir⟩
    rwa [directory, dif_pos hallowed, if_neg htop]
  | @inside path hallowed hinside habove hgood ih =>
    obtain ⟨_, d', hran, hgrown, hready⟩ := ih
    obtain ⟨info, d'', hran', hgrown', hdir⟩ :=
      ownDirectory_ran hgrown.sound (hgrown.good hs hgood) hready.isDirectory
    have hshorter := dirname_length (one_lt_length hallowed)
    refine ⟨info, d'', ?_, hgrown.trans hgrown' hshorter.le,
      .inside hallowed hinside (hgrown'.ready hready) hdir⟩
    rw [directory, dif_pos hallowed, if_pos hinside]
    exact hran.bind hran'

/-- A path that can be a target, and what it may be the place of. -/
structure Target (d : Disk) (path : Text) : Prop where
  allowed : allowed path = true
  above : d.Private (dirname path)
  file : d.files.node path = none ∨ fileMetadata (d.lstat path) = true

theorem target_ran (i : ℕ) (seed : List UInt8) (hs : d.Sound) (h : d.Target path) :
    ∃ d', Ran (answer i seed) (target path) d () d' ∧ Grown (dirname path).length d d' ∧
      d'.Ready (dirname path) ∧ d'.files.node path = d.files.node path := by
  obtain ⟨info, d', hran, hgrown, hready⟩ := directory_ran hs h.above
  have hshorter := dirname_length (one_lt_length h.allowed)
  have hsame : d'.files.node path = d.files.node path := by
    cases hnode : d.files.node path with
    | some node => exact hgrown.kept hnode
    | none =>
      rcases hgrown.made path (hs.names_none hnode) with hnone | hmade
      · exact node_none hnone
      · omega
  refine ⟨d', (ran_ensure h.allowed).bind (hran.bind (ran_lstat.bind ?_)), hgrown, hready, hsame⟩
  refine ran_ensure ?_
  rw [lstat, hsame]
  exact h.file.imp (fun h => by rw [h]; rfl) id

theorem Target.not_directory (h : d.Target path) :
    (d.files.node path).all (·.kind ≠ .directory) = true := by
  cases hnode : d.files.node path with
  | none => rfl
  | some node =>
    have hfile := h.file.resolve_left (by simp [hnode])
    simp only [lstat, hnode, fileMetadata, Option.map_some, Option.any_some, Node.info,
      decide_eq_true_eq] at hfile
    simp [hfile.1]

theorem Target.congr (h : d.Target path) (hsame : ∀ p, p.length ≤ path.length →
    d'.files.node p = d.files.node p) : d'.Target path where
  allowed := h.allowed
  above := by
    have hshorter := dirname_length (one_lt_length h.allowed)
    refine h.above.mono (fun q hq hdir => ?_) fun q hq hgood => ?_
    · rw [isDirectory, hsame q (by omega)]
      exact hdir
    · rw [Good, lstat, hsame q (by omega)]
      exact hgood
  file := by
    rw [lstat, hsame path le_rfl]
    exact h.file

theorem Target.grown (h : d.Target path) (hs : d.Sound) (hgrown : Grown n d d')
    (hsame : d'.files.node path = d.files.node path) : d'.Target path where
  allowed := h.allowed
  above := h.above.mono (fun _ _ hdir => hgrown.isDirectory hdir) fun _ _ hgood =>
    hgrown.good hs hgood
  file := by
    rw [lstat, hsame]
    exact h.file

/-- The file as it is when it has been written. -/
def written (d : Disk) (i : ℕ) (raw : Text) : Node :=
  { d.newFile i with content := raw, accepted := raw }

theorem filled_ran (i : ℕ) (seed : List UInt8) (raw : Text) {file : ℕ} (hs : d.Sound)
    (hfile : d.files.nodes file = some (d'.newFile i)) :
    ∃ files, Ran (answer i seed) (filled file raw) d () ⟨files, d.next⟩ ∧ Sound ⟨files, d.next⟩ ∧
      files.names = d.files.names ∧ files.nodes file = some (d'.written i raw) ∧
      ∀ k, k ≠ file → files.nodes k = d.files.nodes k := by
  have hwrite : answer i seed (.write file raw) d = (some raw.length,
      ⟨d.files.put file { d'.newFile i with accepted := raw }, d.next⟩) := by
    simp only [answer, hfile]
    rfl
  have hput : (d.files.put file { d'.newFile i with accepted := raw }).nodes file =
      some { d'.newFile i with accepted := raw } := by simp [Files.put]
  have hflush : answer i seed (.flush file) ⟨d.files.put file { d'.newFile i with accepted := raw },
      d.next⟩ = (true, ⟨(d.files.put file { d'.newFile i with accepted := raw }).put file
        (d'.written i raw), d.next⟩) := by
    simp only [answer, hput]
    rfl
  refine ⟨_, Ran.caught ((ran_ask hwrite).bind ((ran_ensure rfl).bind
    ((ran_ask hflush).bind (ran_ensure rfl)))), ?_, rfl, by simp [Files.put], fun k hk => ?_⟩
  · exact (hs.put hfile List.nil_prefix).put hput List.prefix_rfl
  · simp [Files.put, Function.update_of_ne hk]

/-- A draft with all of `raw` is made, and nothing else is touched. -/
theorem draft_ran (i : ℕ) (seed : List UInt8) (raw : Text) {temp : Text} (hs : d.Sound)
    (hfree : d.files.names temp = none) (habove : d.isDirectory (dirname temp) = true) :
    ∃ files, answer i seed (.create temp) d = (some d.next, d.add temp (d.newFile i)) ∧
      Ran (answer i seed) (filled d.next raw) (d.add temp (d.newFile i)) () ⟨files, d.next + 1⟩ ∧
      Sound ⟨files, d.next + 1⟩ ∧ files.names temp = some d.next ∧
      files.nodes d.next = some (d.written i raw) ∧
      ∀ p, p ≠ temp → files.node p = d.files.node p := by
  have hnew : (d.add temp (d.newFile i)).files.nodes d.next = some (d.newFile i) := by
    simp [Disk.add, Files.add]
  obtain ⟨files, hran, hsound, hnames, hfile, hnodes⟩ :=
    filled_ran i seed raw (hs.add List.nil_prefix) hnew
  refine ⟨files, if_pos ⟨hfree, hs.free _ le_rfl, habove⟩, hran, hsound, ?_, hfile, fun p hp => ?_⟩
  · rw [hnames]
    simp [Disk.add, Files.add]
  · have hname : files.names p = d.files.names p := by
      rw [hnames]
      simp [Disk.add, Files.add, Function.update_of_ne hp]
    rw [Files.node, Files.node, hname]
    cases hk : d.files.names p with
    | none => rfl
    | some k =>
      obtain ⟨node, hnode⟩ := hs.named p k hk
      have hne : k ≠ d.next := by
        rintro rfl
        rw [hs.free _ le_rfl] at hnode
        cases hnode
      rw [Option.bind_some, Option.bind_some, hnodes k hne]
      simp [Disk.add, Files.add, Function.update_of_ne hne]

/-- Renaming a draft leaves the directories where they are. -/
theorem moved_node {temp q : Text} (hnode : d.files.nodes k = some (d'.written i raw))
    (hpath : q ≠ path) (htemp : q ≠ temp)
    (hq : ∀ node, d.files.node q = some node → node.kind = .directory) :
    (d.files.move i temp path k (d'.written i raw)).node q = d.files.node q := by
  have hname : (d.files.move i temp path k (d'.written i raw)).names q = d.files.names q := by
    simp [Files.move, Function.update_of_ne hpath, Function.update_of_ne htemp]
  rw [Files.node, Files.node, hname]
  cases hm : d.files.names q with
  | none => rfl
  | some m =>
    have hne : m ≠ k := by
      rintro rfl
      have hfile := hq (d'.written i raw) (by simp [Files.node, hm, hnode])
      cases hfile
    simp [Files.move, Function.update_of_ne hne]

theorem directory_of_metadata {q : Text} (h : directoryMetadata (d.lstat q) = true) :
    ∀ node, d.files.node q = some node → node.kind = .directory := by
  intro node hnode
  have hdir := isDirectory_of_metadata h
  rw [isDirectory, hnode] at hdir
  exact of_decide_eq_true hdir

/-- A draft renamed to a target is a target again, and its directories are as they were. -/
theorem moved_target {temp : Text} (h : d.Target path) (htemp : path.length < temp.length)
    (hnode : d.files.nodes k = some (d'.written i raw)) (hready : d.Ready (dirname path)) :
    Target { d with files := d.files.move i temp path k (d'.written i raw) } path ∧
      Ready { d with files := d.files.move i temp path k (d'.written i raw) } (dirname path) := by
  have hshorter := dirname_length (one_lt_length h.allowed)
  have hmoved : (d.files.move i temp path k (d'.written i raw)).node path =
      some { d'.written i raw with writer := none } := by simp [Files.node, Files.move]
  have hsame : ∀ q, q.length ≤ (dirname path).length →
      (∀ node, d.files.node q = some node → node.kind = .directory) →
      (d.files.move i temp path k (d'.written i raw)).node q = d.files.node q := by
    intro q hq hdir
    refine moved_node hnode ?_ ?_ hdir
    · rintro rfl
      omega
    · rintro rfl
      omega
  have hdirs : ∀ q, q.length < (dirname path).length → d.isDirectory q = true →
      isDirectory { d with files := d.files.move i temp path k (d'.written i raw) } q = true := by
    intro q hq hdir
    have hthere : ∀ node, d.files.node q = some node → node.kind = .directory := by
      intro node hnode
      rw [isDirectory, hnode] at hdir
      exact of_decide_eq_true hdir
    rw [isDirectory, hsame q hq.le hthere]
    exact hdir
  have hmetadata : ∀ q, q.length ≤ (dirname path).length → directoryMetadata (d.lstat q) = true →
      directoryMetadata
        (lstat { d with files := d.files.move i temp path k (d'.written i raw) } q) =
        true := by
    intro q hq hdir
    rw [lstat, hsame q hq (directory_of_metadata hdir)]
    exact hdir
  refine ⟨⟨h.allowed, h.above.mono hdirs fun q hq hgood => ?_, .inr ?_⟩,
    hready.mono hdirs hmetadata⟩
  · rcases hgood with hnone | hdir
    · refine .inl ((hsame q hq fun node hsome => ?_).trans hnone)
      rw [hnone] at hsome
      cases hsome
    · exact .inr (hmetadata q hq hdir)
  · rw [lstat, hmoved]
    simp [fileMetadata, Node.info, written, newFile]

theorem hexDigit_ne {n : ℕ} (h : n < 16) : hexDigit n ≠ '/' := by
  revert n
  decide

/-- A draft lies in the directory of its target. -/
theorem dirname_temporary (path : Text) (seed : List UInt8) :
    dirname (temporary path seed) = dirname path := by
  have hsuffix : ∀ c ∈ (".new-".toList ++ hexenc seed).reverse, decide (c ≠ '/') = true := by
    intro c hc
    rw [List.mem_reverse, List.mem_append] at hc
    rcases hc with hc | hc
    · revert c
      decide
    · obtain ⟨b, -, hb⟩ := List.mem_flatMap.1 hc
      have hlow : b.toNat < 256 := b.toNat_lt
      rcases List.mem_pair.1 hb with rfl | rfl
      · exact decide_eq_true (hexDigit_ne (by omega))
      · exact decide_eq_true (hexDigit_ne (by omega))
  have hdrop : (temporary path seed).reverse.dropWhile (· ≠ '/') =
      path.reverse.dropWhile (· ≠ '/') := by
    rw [temporary, List.append_assoc, List.reverse_append]
    exact List.dropWhile_append_of_pos hsuffix
  rw [dirname, dirname, RamSwitch.dirname, RamSwitch.dirname, hdrop]

/-- Writing a target succeeds, and leaves a file with all of it there. -/
theorem write_ran (i : ℕ) (raw : Text) (hs : d.Sound) (h : d.Target path) (hseed : seed.length = 12)
    (hfree : d.files.node (temporary path seed) = none) :
    ∃ d' k node, Ran (answer i seed) (write path raw) d () d' ∧ d'.Sound ∧ d'.Target path ∧
      d'.Ready (dirname path) ∧ d'.files.names path = some k ∧ d'.files.nodes k = some node ∧
      node.kind = .file ∧ node.content = raw := by
  have hlonger : path.length < (temporary path seed).length := by simp [temporary]
  have hshorter := dirname_length (one_lt_length h.allowed)
  obtain ⟨d1, hran1, hgrown1, hready1, hsame1⟩ := target_ran i seed hs h
  have hfree1 : d1.files.names (temporary path seed) = none := by
    rcases hgrown1.made _ (hs.names_none hfree) with hnone | hmade
    · exact hnone
    · omega
  have habove : d1.isDirectory (dirname (temporary path seed)) = true := by
    rw [dirname_temporary]
    exact hready1.isDirectory
  obtain ⟨files, hcreate, hfilled, hsound2, hname2, hnode2, hsame2⟩ :=
    draft_ran i seed raw hgrown1.sound hfree1 habove
  have htarget2 : Target ⟨files, d1.next + 1⟩ path := by
    refine (h.grown hs hgrown1 hsame1).congr fun p hp => hsame2 p ?_
    rintro rfl
    omega
  obtain ⟨d3, hran3, hgrown3, hready3, hsame3⟩ := target_ran i seed hsound2 htarget2
  have hname3 := hgrown3.names _ _ hname2
  have hnode3 := hgrown3.nodes _ _ hnode2
  have hover : (d3.files.node path).all (·.kind ≠ .directory) = true := by
    rw [hsame3, hsame2 path (by rintro heq; rw [← heq] at hlonger; omega), hsame1]
    exact h.not_directory
  have hrename : answer i seed (.rename (temporary path seed) path) d3 = (true, { d3 with
      files := d3.files.move i (temporary path seed) path d1.next (d1.written i raw) }) := by
    simp only [answer, hname3, hnode3]
    exact if_pos ⟨hover, hready3.isDirectory⟩
  obtain ⟨htarget, hready⟩ := moved_target (i := i) (htarget2.grown hsound2 hgrown3 hsame3) hlonger
    hnode3 hready3
  refine ⟨_, d1.next, { d1.written i raw with writer := none }, ?_, hgrown3.sound.move hnode3,
    htarget, hready, by simp [Files.move], by simp [Files.move], rfl, rfl⟩
  refine hran1.bind ((ran_ask rfl).bind ((ran_ensure hseed).bind ((ran_ask hcreate).bind ?_)))
  refine Ran.caught (hfilled.bind ((ran_ask rfl).bind (hran3.bind ((ran_ask hrename).bind ?_))))
  exact ran_ensure rfl

theorem readRest_ran (i : ℕ) (seed : List UInt8) (hnode : d.files.nodes k = some node)
    (hkind : node.kind = .file) (hlimit : node.content.length ≤ limit) :
    Ran (answer i seed) (readRest k (limit + 1) []) d (some node.content) d := by
  have hfetch : ∀ start n, answer i seed (.fetch k start n) d =
      (some ((node.content.drop start).take n), d) := by
    intro start n
    simp [answer, hnode, hkind]
  have hend : ∀ n, 0 < n →
      Ran (answer i seed) (readRest k n node.content) d (some node.content) d := by
    intro n hn
    rw [readRest, if_neg (by omega)]
    refine (ran_ask (hfetch _ _)).bind ?_
    rw [List.drop_length, List.take_nil]
    rfl
  rw [readRest, if_neg (by omega)]
  refine (ran_ask (hfetch _ _)).bind ?_
  rw [List.length_nil, List.drop_zero, List.take_of_length_le (by omega)]
  cases hcontent : node.content with
  | nil => rfl
  | cons c rest =>
    rw [hcontent] at hend hlimit
    rw [List.length_cons] at hlimit
    exact hend _ (by omega)

theorem read_ran (i : ℕ) (seed : List UInt8) (hs : d.Sound) (h : d.Target path)
    (hname : d.files.names path = some k) (hnode : d.files.nodes k = some node)
    (hkind : node.kind = .file) (hlimit : node.content.length ≤ limit) :
    ∃ d', Ran (answer i seed) (read path limit) d (some node.content) d' := by
  obtain ⟨d', hran, hgrown, -, -⟩ := target_ran i seed hs h
  have hname' := hgrown.names _ _ hname
  have hnode' := hgrown.nodes _ _ hnode
  have hpath : d'.files.node path = some node := by simp [Files.node, hname', hnode']
  have hinfo : d'.lstat path = some node.info := by rw [lstat, hpath]; rfl
  have hopen : answer i seed (.openRead path) d' = (some k, d') := by
    simp [answer, hname', hnode', hkind]
  have hfile : fileMetadata (some node.info) = true := by
    have hold : d.files.node path = some node := by simp [Files.node, hname, hnode]
    have hmeta := h.file.resolve_left (by simp [hold])
    rwa [lstat, hold] at hmeta
  refine ⟨d', hran.bind (ran_lstat.bind ?_)⟩
  rw [hinfo]
  refine (ran_ensure hlimit).bind
    (((ran_ask hopen).bind (readRest_ran i seed hnode' hkind hlimit)).bind
    (ran_lstat.bind ?_))
  rw [hinfo]
  exact (ran_ensure ⟨hfile, rfl, rfl, hlimit⟩).bind rfl

/-- On a disk that nothing goes wrong on, a write to a target succeeds, the directories above it are
there afterwards, and private, and a read after it, of up to `limit` letters or more, returns what
was written. -/
theorem write_then_read (i j : ℕ) (seed seed' : List UInt8) (path raw : Text) (limit : ℕ) (d : Disk)
    (hs : d.Sound) (h : d.Target path) (hseed : seed.length = 12)
    (hfree : d.files.node (temporary path seed) = none) (hlimit : raw.length ≤ limit) :
    ∃ d' d'', Ran (answer i seed) (write path raw) d () d' ∧ d'.Ready (dirname path) ∧
      Ran (answer j seed') (read path limit) d' (some raw) d'' := by
  obtain ⟨d', k, node, hran, hs', h', hready, hname, hnode, hkind, rfl⟩ :=
    write_ran i raw hs h hseed hfree
  obtain ⟨d'', hran'⟩ := read_ran j seed' hs' h' hname hnode hkind hlimit
  exact ⟨d', d'', hran, hready, hran'⟩

/-- Only `/tmp` and `/etc`. -/
def bare : Disk where
  files := {
    names := fun path =>
      if path = "/tmp".toList then some 0 else if path = "/etc".toList then some 1 else none
    nodes := fun k =>
      if k = 0 then some ⟨.directory, 0, 2, 0o1777, 1, [], [], none⟩
      else if k = 1 then some ⟨.directory, 0, 2, 0o755, 2, [], [], none⟩ else none
    log := [] }
  next := 2

theorem bare_named (path : Text) (k : ℕ) (h : bare.files.names path = some k) :
    ∃ node, bare.files.nodes k = some node := by
  simp only [bare] at h
  split at h
  · cases h
    exact ⟨_, rfl⟩
  · split at h
    · cases h
      exact ⟨_, rfl⟩
    · cases h

theorem bare_nodes (k : ℕ) (node : Node) (h : bare.files.nodes k = some node) :
    node.writer = none ∧ node.content = [] := by
  simp only [bare] at h
  split at h
  · cases h
    exact ⟨rfl, rfl⟩
  · split at h
    · cases h
      exact ⟨rfl, rfl⟩
    · cases h

theorem bare_sound : bare.Sound where
  free k hk := by
    have hk : 2 ≤ k := hk
    simp only [bare]
    rw [if_neg (by omega), if_neg (by omega)]
  named := bare_named
  taken k node h := by
    rw [(bare_nodes k node h).2]
    exact List.nil_prefix

def statePath : Text := "/etc/foxhole/state.json".toList

theorem bare_target : bare.Target statePath where
  allowed := by decide
  above := .top (by decide) (by decide) (by decide) (.inl rfl)
  file := .inl rfl

def bootPath : Text := "/etc/foxhole/ram-update/boot.json".toList

theorem bare_boot : bare.Target bootPath where
  allowed := by decide
  above := .inside (by decide) (by decide) (.top (by decide) (by decide) (by decide) (.inl rfl))
    (.inl rfl)
  file := .inl rfl

/-- Two directories are made on the way. -/
theorem write_then_read_boot : ∃ d' d'',
    Ran (answer 0 (List.replicate 12 7)) (write bootPath "new".toList) bare () d' ∧
      d'.Ready "/etc/foxhole/ram-update".toList ∧
      Ran (answer 1 []) (read bootPath 8192) d' (some "new".toList) d'' :=
  write_then_read 0 1 (List.replicate 12 7) [] bootPath "new".toList 8192 bare bare_sound
    bare_boot rfl rfl (by decide)

end Disk

end Foxhole.PrivateStore
