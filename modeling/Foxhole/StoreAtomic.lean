import Foxhole.StoreRound

/-! The private store under any number of readers and writers that run at once and may be killed
at any operation: a file is never seen half written, and it changes as its writers were told. -/
namespace Foxhole.PrivateStore
open Text Threads

/-- What a path shows after these renames. -/
def version (init : Text → Option Text) (log : List Commit) (path : Text) : Option Text :=
  log.foldl (fun v e => if e.path = path then some e.raw else v) (init path)

theorem version_append (init : Text → Option Text) (log : List Commit) (e : Commit) (path : Text) :
    version init (log ++ [e]) path =
      if e.path = path then some e.raw else version init log path := by
  simp [version]

/-- The names name nodes, only files are written, and a plain path shows its last version, whole. -/
structure Inv (init : Text → Option Text) (s : Files) : Prop where
  named : ∀ path k, s.names path = some k → ∃ node, s.nodes k = some node
  placed : ∀ path, ¬ ".new-".toList <:+: path → ∀ node, s.node path = some node → node.writer = none
  drafts : ∀ k node, s.nodes k = some node → node.writer ≠ none → node.kind = .file
  shows : ∀ path, ¬ ".new-".toList <:+: path → s.shown path = version init s.log path

/-- What thread `i` relies on. -/
structure Rely (i : ℕ) (s t : Files) : Prop where
  log : ∃ l, t.log = s.log ++ l ∧ ∀ e ∈ l, e.who ≠ i
  nodes : ∀ k node, s.nodes k = some node → node.writer = none ∨ node.writer = some i →
    t.nodes k = some node
  names : ∀ path k node, s.names path = some k → s.nodes k = some node →
    node.writer = some i → t.names path = some k
  links : ∀ path node, t.node path = some node → node.kind = .link →
    ∃ old, s.node path = some old ∧ old.kind = .link

theorem Rely.refl (i : ℕ) (s : Files) : Rely i s s where
  log := ⟨[], by simp, by simp⟩
  nodes _ _ h _ := h
  names _ _ _ h _ _ := h
  links _ node h hk := ⟨node, h, hk⟩

theorem relies : Relies Rely where
  refl := Rely.refl
  trans i s t u hst htu := by
    refine ⟨?_, fun k node h hw => htu.nodes k node (hst.nodes k node h hw) hw, ?_, ?_⟩
    · obtain ⟨l, hl, hwho⟩ := hst.log
      obtain ⟨l', hl', hwho'⟩ := htu.log
      refine ⟨l ++ l', by rw [hl', hl, List.append_assoc], fun e he => ?_⟩
      exact (List.mem_append.1 he).elim (hwho e) (hwho' e)
    · intro path k node hname hnode hw
      exact htu.names path k node (hst.names path k node hname hnode hw)
        (hst.nodes k node hnode (.inr hw)) hw
    · intro path node hnode hk
      obtain ⟨mid, hmid, hk'⟩ := htu.links path node hnode hk
      exact hst.links path mid hmid hk'

/-! What an operation keeps. -/

variable {init : Text → Option Text} {s t : Files} {i j : ℕ} {path : Text} {k : ℕ} {node : Node}
  {blind : Prop}

/-- The draft of a thread is no node that another one relies on. -/
theorem ne_draft (hnode : s.nodes k = some node) (hw : node.writer = some i) (hj : j ≠ i) {m : ℕ}
    {old : Node} (h : s.nodes m = some old) (hold : old.writer = none ∨ old.writer = some j) :
    m ≠ k := by
  rintro rfl
  rw [hnode] at h
  cases h
  rw [hw] at hold
  rcases hold with h | h
  · cases h
  · exact hj (Option.some.inj h).symm

/-- A plain path names no draft. -/
theorem Inv.ne_draft (hs : Inv init s) (hnode : s.nodes k = some node) (hw : node.writer ≠ none)
    {p : Text} (hp : ¬ ".new-".toList <:+: p) {m : ℕ} (hname : s.names p = some m) : m ≠ k := by
  rintro rfl
  exact hw (hs.placed p hp node (by simp [Files.node, hname, hnode]))

theorem node_add (hk : s.nodes k = none) (hs : Inv init s) (p : Text) :
    (s.add path k node).node p = if p = path then some node else s.node p := by
  by_cases hp : p = path
  · subst hp
    simp [Files.node, Files.add]
  · rw [if_neg hp]
    simp only [Files.node, Files.add, Function.update_of_ne hp]
    cases hname : s.names p with
    | none => rfl
    | some m =>
      have hm : m ≠ k := by
        rintro rfl
        obtain ⟨old, hold⟩ := hs.named p m hname
        rw [hk] at hold
        cases hold
      simp [Function.update_of_ne hm]

/-- A node is added under a name there was not. -/
theorem add_keeps (hs : Inv init s) (hpath : s.names path = none) (hk : s.nodes k = none)
    (hplain : ¬ ".new-".toList <:+: path → node.kind = .directory ∧ node.writer = none)
    (hkind : node.kind = .file ∨ node.kind = .directory ∧ node.writer = none) :
    Inv init (s.add path k node) ∧ ∀ j, Rely j s (s.add path k node) := by
  have hold : ∀ m old, s.nodes m = some old → (s.add path k node).nodes m = some old := by
    intro m old h
    have hm : m ≠ k := by
      rintro rfl
      rw [hk] at h
      cases h
    simpa [Files.add, Function.update_of_ne hm] using h
  refine ⟨⟨?_, ?_, ?_, ?_⟩, fun j => ⟨⟨[], by simp [Files.add], by simp⟩, ?_, ?_, ?_⟩⟩
  · intro p m hm
    by_cases hp : p = path
    · subst hp
      have hkm : k = m := by simpa [Files.add] using hm
      exact ⟨node, by simp [Files.add, hkm]⟩
    · obtain ⟨old, h⟩ := hs.named p m (by simpa [Files.add, Function.update_of_ne hp] using hm)
      exact ⟨old, hold m old h⟩
  · intro p hp old h
    rw [node_add hk hs] at h
    split at h
    · next heq =>
      cases h
      exact (hplain (heq ▸ hp)).2
    · exact hs.placed p hp old h
  · intro m old h hw
    by_cases hm : m = k
    · subst hm
      have heq : node = old := by simpa [Files.add] using h
      subst heq
      exact hkind.resolve_right fun hd => hw hd.2
    · exact hs.drafts m old (by simpa [Files.add, Function.update_of_ne hm] using h) hw
  · intro p hp
    have hlog := hs.shows p hp
    rw [Files.shown, node_add hk hs]
    by_cases heq : p = path
    · subst heq
      simp only [Files.shown, Files.node, hpath, Option.bind_none] at hlog
      simpa [(hplain hp).1, Files.add] using hlog
    · rw [if_neg heq]
      exact hlog
  · exact fun m old h _ => hold m old h
  · intro p m old hname _ _
    have hp : p ≠ path := by
      rintro rfl
      rw [hpath] at hname
      cases hname
    simpa [Files.add, Function.update_of_ne hp] using hname
  · intro p old h hl
    rw [node_add hk hs] at h
    split at h
    · cases h
      rcases hkind with hf | hd
      · rw [hf] at hl
        cases hl
      · rw [hd.1] at hl
        cases hl
    · exact ⟨old, h, hl⟩

/-- A draft is not what a plain path names. -/
theorem node_put (hnode : s.nodes k = some node) (hw : node.writer ≠ none) {node' : Node}
    (hs : Inv init s) (p : Text) (hp : ¬ ".new-".toList <:+: p) :
    (s.put k node').node p = s.node p := by
  simp only [Files.node, Files.put]
  cases hname : s.names p with
  | none => rfl
  | some m => simp [Function.update_of_ne (hs.ne_draft hnode hw hp hname)]

theorem put_keeps (hs : Inv init s) (hnode : s.nodes k = some node) (hw : node.writer = some i)
    {node' : Node} (hkind : node'.kind = node.kind) :
    Inv init (s.put k node') ∧ ∀ j, j ≠ i → Rely j s (s.put k node') := by
  have hsome : node.writer ≠ none := by simp [hw]
  have hfile := hs.drafts k node hnode hsome
  refine ⟨⟨?_, ?_, ?_, ?_⟩, fun j hj => ⟨⟨[], by simp [Files.put], by simp⟩, ?_, ?_, ?_⟩⟩
  · intro p m hm
    by_cases hmk : m = k
    · exact ⟨node', by simp [Files.put, hmk]⟩
    · obtain ⟨old, h⟩ := hs.named p m hm
      exact ⟨old, by simpa [Files.put, Function.update_of_ne hmk] using h⟩
  · intro p hp old h
    rw [node_put hnode hsome hs p hp] at h
    exact hs.placed p hp old h
  · intro m old h hne
    by_cases hmk : m = k
    · subst hmk
      have heq : node' = old := by simpa [Files.put] using h
      rw [← heq, hkind, hfile]
    · exact hs.drafts m old (by simpa [Files.put, Function.update_of_ne hmk] using h) hne
  · intro p hp
    rw [Files.shown, node_put hnode hsome hs p hp]
    exact hs.shows p hp
  · intro m old h hold
    simpa [Files.put, Function.update_of_ne (ne_draft hnode hw hj h hold)] using h
  · exact fun p m old h _ _ => h
  · intro p old h hl
    simp only [Files.node, Files.put] at h ⊢
    cases hname : s.names p with
    | none => simp [hname] at h
    | some m =>
      simp only [hname, Option.bind_some] at h ⊢
      by_cases hmk : m = k
      · subst hmk
        have heq : node' = old := by simpa using h
        rw [← heq, hkind, hfile] at hl
        cases hl
      · exact ⟨old, by simpa [Function.update_of_ne hmk] using h, hl⟩

theorem drop_keeps (hs : Inv init s) (hname : s.names path = some k) (hnode : s.nodes k = some node)
    (hw : node.writer = some i) (htemp : ".new-".toList <:+: path) :
    Inv init (s.drop path) ∧ ∀ j, j ≠ i → Rely j s (s.drop path) := by
  have hnode' : ∀ p, p ≠ path → (s.drop path).node p = s.node p := by
    intro p hp
    simp [Files.node, Files.drop, Function.update_of_ne hp]
  have hnone : (s.drop path).node path = none := by simp [Files.node, Files.drop]
  have hne : ∀ p, ¬ ".new-".toList <:+: p → p ≠ path := by
    rintro p hp rfl
    exact hp htemp
  refine ⟨⟨?_, ?_, hs.drafts, ?_⟩,
    fun j hj => ⟨⟨[], by simp [Files.drop], by simp⟩, fun m old h _ => h, ?_, ?_⟩⟩
  · intro p m hm
    by_cases hp : p = path
    · subst hp
      simp [Files.drop] at hm
    · exact hs.named p m (by simpa [Files.drop, Function.update_of_ne hp] using hm)
  · intro p hp old h
    rw [hnode' p (hne p hp)] at h
    exact hs.placed p hp old h
  · intro p hp
    rw [Files.shown, hnode' p (hne p hp)]
    exact hs.shows p hp
  · intro p m old hm hold hwj
    have hp : p ≠ path := by
      rintro rfl
      rw [hname] at hm
      exact ne_draft hnode hw hj hold (.inr hwj) (Option.some.inj hm).symm
    simpa [Files.drop, Function.update_of_ne hp] using hm
  · intro p old h hl
    by_cases hp : p = path
    · rw [hp, hnone] at h
      cases h
    · exact ⟨old, by rwa [hnode' p hp] at h, hl⟩

section Move
variable {old new : Text}

theorem names_move {p : Text} (ho : p ≠ old) (hn : p ≠ new) :
    (s.move i old new k node).names p = s.names p := by
  simp [Files.move, Function.update_of_ne hn, Function.update_of_ne ho]

theorem node_move_new :
    (s.move i old new k node).node new = some { node with writer := none } := by
  simp [Files.node, Files.move]

theorem node_move_old (hne : old ≠ new) : (s.move i old new k node).node old = none := by
  simp [Files.node, Files.move, Function.update_of_ne hne]

theorem nodes_move {m : ℕ} {found : Node} (h : (s.move i old new k node).nodes m = some found) :
    (m = k ∧ found = { node with writer := none }) ∨ (m ≠ k ∧ s.nodes m = some found) := by
  by_cases hmk : m = k
  · subst hmk
    left
    exact ⟨rfl, by simpa [Files.move] using h.symm⟩
  · right
    exact ⟨hmk, by simpa [Files.move, Function.update_of_ne hmk] using h⟩

/-- A rename does not change what the other plain paths name. -/
theorem node_move_plain (hs : Inv init s) (hnode : s.nodes k = some node) (hw : node.writer ≠ none)
    (htemp : ".new-".toList <:+: old) {p : Text} (hp : ¬ ".new-".toList <:+: p) (hn : p ≠ new) :
    (s.move i old new k node).node p = s.node p := by
  have ho : p ≠ old := by
    rintro rfl
    exact hp htemp
  rw [Files.node, names_move ho hn, Files.node]
  cases hname : s.names p with
  | none => rfl
  | some m => simp [Files.move, Function.update_of_ne (hs.ne_draft hnode hw hp hname)]

theorem move_inv (hs : Inv init s) (hnode : s.nodes k = some node) (hw : node.writer = some i)
    (htemp : ".new-".toList <:+: old) : Inv init (s.move i old new k node) := by
  have hsome : node.writer ≠ none := by simp [hw]
  have hfile := hs.drafts k node hnode hsome
  refine ⟨?_, ?_, ?_, ?_⟩
  · intro p m hm
    by_cases hmk : m = k
    · exact ⟨{ node with writer := none }, by simp [Files.move, hmk]⟩
    · have hpm : s.names p = some m := by
        by_cases hn : p = new
        · subst hn
          exact absurd (by simpa [Files.move] using hm.symm) hmk
        · by_cases ho : p = old
          · subst ho
            simp [Files.move, Function.update_of_ne hn] at hm
          · rwa [names_move ho hn] at hm
      obtain ⟨found, h⟩ := hs.named p m hpm
      exact ⟨found, by simpa [Files.move, Function.update_of_ne hmk] using h⟩
  · intro p hp found h
    by_cases hn : p = new
    · rw [hn, node_move_new] at h
      cases h
      rfl
    · rw [node_move_plain hs hnode hsome htemp hp hn] at h
      exact hs.placed p hp found h
  · intro m found h hw'
    rcases nodes_move h with ⟨-, rfl⟩ | ⟨-, h⟩
    · exact absurd rfl hw'
    · exact hs.drafts m found h hw'
  · intro p hp
    have hlog : (s.move i old new k node).log = s.log ++ [⟨i, new, node.content⟩] := rfl
    rw [hlog, version_append]
    by_cases hn : p = new
    · rw [hn, Files.shown, node_move_new]
      simp [hfile]
    · rw [if_neg fun h => hn h.symm, Files.shown, node_move_plain hs hnode hsome htemp hp hn]
      exact hs.shows p hp

theorem move_rely (hs : Inv init s) (hname : s.names old = some k)
    (hnode : s.nodes k = some node) (hw : node.writer = some i) (htemp : ".new-".toList <:+: old)
    (hplain : ¬ ".new-".toList <:+: new) (hj : j ≠ i) : Rely j s (s.move i old new k node) := by
  have hfile := hs.drafts k node hnode (by simp [hw])
  have hne : old ≠ new := by
    rintro rfl
    exact hplain htemp
  refine ⟨⟨[⟨i, new, node.content⟩], rfl, ?_⟩, ?_, ?_, ?_⟩
  · intro e he
    rw [List.mem_singleton.1 he]
    exact fun h => hj h.symm
  · intro m found h hfound
    simpa [Files.move, Function.update_of_ne (ne_draft hnode hw hj h hfound)] using h
  · intro p m found hm hfound hwj
    have ho : p ≠ old := by
      rintro rfl
      rw [hname] at hm
      exact ne_draft hnode hw hj hfound (.inr hwj) (Option.some.inj hm).symm
    have hn : p ≠ new := by
      rintro rfl
      have hnone := hs.placed p hplain found (by simp [Files.node, hm, hfound])
      rw [hnone] at hwj
      cases hwj
    rwa [names_move ho hn]
  · intro p found h hl
    by_cases hn : p = new
    · rw [hn, node_move_new] at h
      cases h
      rw [hfile] at hl
      cases hl
    · by_cases ho : p = old
      · rw [ho, node_move_old hne] at h
        cases h
      · rw [Files.node, names_move ho hn] at h
        obtain ⟨m, hm, hfound⟩ := Option.bind_eq_some_iff.1 h
        rcases nodes_move hfound with ⟨rfl, rfl⟩ | ⟨-, hfound⟩
        · exact ⟨node, by simp [Files.node, hm, hnode], hl⟩
        · exact ⟨found, by simp [Files.node, hm, hfound], hl⟩

end Move

/-! What the programs do. -/

/-- The operations anyone may do at any time. -/
def Quiet : Op → Prop
  | .lstat _ | .mkdir _ | .random _ | .openRead _ | .fetch .. => True
  | _ => False

theorem quiet_keeps (o : Op) (ho : Quiet o) (s : Files) (r : Answer o) (t : Files)
    (hs : Inv init s) (h : Does blind i s o r t) : Inv init t ∧ ∀ j, Rely j s t := by
  cases h with
  | mkdir path k node hpath hk hkind hw =>
    exact add_keeps hs hpath hk (fun _ => ⟨hkind, hw⟩) (.inr ⟨hkind, hw⟩)
  | lstat | lstatFails | mkdirFails | random | openRead | openLink | openFails | fetch
  | fetchFails =>
    exact ⟨hs, fun j => Rely.refl j s⟩
  | _ => exact ho.elim

theorem only_ensure {p : Prop} [Decidable p] : (ensure p).run.Only Quiet := by
  unfold ensure
  split <;> trivial

theorem only_ask {o : Op} (ho : Quiet o) : (ask o).run.Only Quiet := ⟨ho, fun _ => trivial⟩

theorem only_ownDirectory (path : Text) : (ownDirectory path).run.Only Quiet := by
  refine Prog.Only.then (only_ask trivial) fun info => ?_
  by_cases hinfo : info = none
  · rw [if_pos hinfo]
    refine Prog.Only.then (only_ask trivial) fun made => ?_
    refine Prog.Only.then only_ensure fun _ => ?_
    refine Prog.Only.then (only_ask trivial) fun again => ?_
    exact Prog.Only.then only_ensure fun _ => trivial
  · rw [if_neg hinfo]
    exact Prog.Only.then only_ensure fun _ => trivial

theorem only_directory (path : Text) : (directory path).run.Only Quiet := by
  induction path using directory.induct with
  | case1 path hallowed hbelow ih =>
    rw [directory, dif_pos hallowed, if_pos hbelow]
    exact Prog.Only.then ih fun _ => only_ownDirectory path
  | case2 path hallowed hbelow =>
    rw [directory, dif_pos hallowed, if_neg hbelow]
    exact only_ownDirectory path
  | case3 path hallowed =>
    rw [directory, dif_neg hallowed]
    trivial

theorem only_target (path : Text) : (target path).run.Only Quiet := by
  refine Prog.Only.then only_ensure fun _ => ?_
  refine Prog.Only.then (only_directory _) fun _ => ?_
  exact Prog.Only.then (only_ask trivial) fun _ => only_ensure

/-- What thread `i` has renamed since `first`. -/
def Since (i : ℕ) (first s : Files) (done : List Commit) : Prop :=
  ∃ l, s.log = first.log ++ l ∧ l.filter (·.who = i) = done

theorem Since.stable {first : Files} {done : List Commit} :
    Stable (Inv init) Rely i fun s => Since i first s done := by
  rintro s t ⟨l, hl, hdone⟩ hr -
  obtain ⟨l', hl', hwho⟩ := hr.log
  refine ⟨l ++ l', by rw [hl', hl, List.append_assoc], ?_⟩
  have hnone : l'.filter (·.who = i) = [] := by
    rw [List.filter_eq_nil_iff]
    intro e he
    simpa using hwho e he
  rw [List.filter_append, hdone, hnone, List.append_nil]

theorem Since.of_log {first : Files} {done : List Commit} (h : Since i first s done)
    (hlog : t.log = s.log) : Since i first t done := by
  obtain ⟨l, hl, hdone⟩ := h
  exact ⟨l, by rw [hlog, hl], hdone⟩

/-- The file thread `i` is writing is the one its temporary name leads to. -/
def Drafts (i : ℕ) (path : Text) (file : ℕ) (R : Node → Prop) (s : Files) : Prop :=
  ∃ node, s.names path = some file ∧ s.nodes file = some node ∧ node.writer = some i ∧ R node

theorem Drafts.stable {file : ℕ} {R : Node → Prop} :
    Stable (Inv init) Rely i (Drafts i path file R) := by
  rintro s t ⟨node, hname, hnode, hw, hR⟩ hr -
  exact ⟨node, hr.names _ _ _ hname hnode hw, hr.nodes _ _ hnode (.inr hw), hw, hR⟩

theorem Drafts.weaken {file : ℕ} {R R' : Node → Prop} (h : Drafts i path file R s)
    (hR : ∀ node, R node → R' node) : Drafts i path file R' s := by
  obtain ⟨node, hname, hnode, hw, hn⟩ := h
  exact ⟨node, hname, hnode, hw, hR node hn⟩

theorem Drafts.put {file : ℕ} {R : Node → Prop} (h : Drafts i path file R s) (R' : Node → Prop)
    (node' : Node) (hs : Inv init s) (hnode : ∀ node, s.nodes file = some node → R node →
      node'.kind = node.kind ∧ node'.writer = node.writer ∧ R' node') :
    Inv init (s.put file node') ∧ (∀ j, j ≠ i → Rely j s (s.put file node')) ∧
      Drafts i path file R' (s.put file node') := by
  obtain ⟨node, hname, hfile, hw, hR⟩ := h
  obtain ⟨hkind, hwriter, hR'⟩ := hnode node hfile hR
  obtain ⟨hinv, hrely⟩ := put_keeps hs hfile hw hkind
  exact ⟨hinv, hrely, node', hname, by simp [Files.put], by rw [hwriter, hw], hR'⟩

section Write
variable {first : Files} {place : Place} {raw : Text} {temp : Text} {file : ℕ}

/-- Before the rename nothing is done, after it one thing is. -/
def Meanwhile (i : ℕ) (place : Place) (raw : Text) (first s : Files) : Prop :=
  Since i first s [] ∨ Since i first s [⟨i, place.path, raw⟩]

theorem meanwhile_stable : Stable (Inv init) Rely i (Meanwhile i place raw first) :=
  Stable.or Since.stable Since.stable

/-- Not yet renamed, with a draft of the kind `R`. -/
def Writing (i : ℕ) (first : Files) (temp : Text) (file : ℕ) (R : Node → Prop) (s : Files) : Prop :=
  Since i first s [] ∧ Drafts i temp file R s

theorem writing_stable {R : Node → Prop} :
    Stable (Inv init) Rely i (Writing i first temp file R) :=
  Stable.and Since.stable Drafts.stable

variable {D : Files → Prop} {P : Files → Prop} {α : Type} {Q : Except Err α → Files → Prop}

theorem safe_target {f : Unit → Io α} (hP : Stable (Inv init) Rely i P) (hD : ∀ s, P s → D s)
    (hs : Inv init s) (h : P s)
    (hok : ∀ t, Inv init t → P t → Safe (Does blind) (Inv init) Rely i D Q (f ()).run t)
    (herror : ∀ e t, P t → Q (.error e) t) :
    Safe (Does blind) (Inv init) Rely i D Q (target path >>= f).run s := by
  refine safe_then relies hs (safe_quiet (fun o ho s r t => quiet_keeps o ho s r t) hP hD
    (only_target path) h) ?_ ?_
  · exact fun _ t ht hPt => hok t ht hPt
  · exact fun e t ht hPt => safe_ret hP hD (herror e) hPt

theorem safe_ensure {p : Prop} [Decidable p] {f : Unit → Io α} (hP : Stable (Inv init) Rely i P)
    (hD : ∀ s, P s → D s) (h : P s)
    (hok : p → Safe (Does blind) (Inv init) Rely i D Q (f ()).run s)
    (herror : ∀ e t, P t → Q (.error e) t) :
    Safe (Does blind) (Inv init) Rely i D Q (ensure p >>= f).run s := by
  unfold ensure
  split
  · next hp => exact hok hp
  · exact safe_ret hP hD (herror _) h

theorem safe_ensured {p : Prop} [Decidable p] {Q : Except Err Unit → Files → Prop}
    (hP : Stable (Inv init) Rely i P) (hD : ∀ s, P s → D s) (h : P s)
    (hok : p → ∀ t, P t → Q (.ok ()) t) (herror : ∀ e t, P t → Q (.error e) t) :
    Safe (Does blind) (Inv init) Rely i D Q (ensure p).run s := by
  unfold ensure
  split
  · next hp => exact safe_ret hP hD (hok hp) h
  · exact safe_ret hP hD (herror _) h

/-- Flushing a draft that was handed over whole. -/
theorem safe_flush
    (h : Writing i first temp file (fun node => node.accepted = raw ∧ node.content <+: raw) s) :
    Safe (Does blind) (Inv init) Rely i (Meanwhile i place raw first)
      (Ends (fun _ => Writing i first temp file fun node => node.content = raw ∧
        node.accepted = raw)
        (Writing i first temp file fun _ => True))
      (do let flushed : Bool ← ask (.flush file); ensure flushed : Io Unit).run s := by
  have hmean : ∀ (R : Node → Prop) s, Writing i first temp file R s →
      Meanwhile i place raw first s :=
    fun R s h => .inl h.1
  refine safe_op writing_stable (hmean _) h fun t flushed u ht hw hdoes => ?_
  obtain ⟨hsince, hdraft⟩ := hw
  cases hdoes with
  | flushFails =>
    refine ⟨ht, fun j _ => Rely.refl j t, ?_⟩
    exact safe_ret (P := Writing i first temp file fun _ => True) writing_stable (hmean _)
      (fun s hs => hs) ⟨hsince, hdraft.weaken fun _ _ => trivial⟩
  | flush _ node content _ hnode hcontent haccepted hdone =>
    obtain ⟨hinv, hrely, hdraft'⟩ := hdraft.put
      (fun node => node.accepted = raw ∧ (flushed = true → node.content = raw))
      { node with content := content } ht (by
        intro old hold hfull
        rw [hnode] at hold
        cases hold
        exact ⟨rfl, rfl, hfull.1, fun hf => (hdone hf).trans hfull.1⟩)
    refine ⟨hinv, hrely, ?_⟩
    refine safe_ensured writing_stable (hmean _) ⟨hsince.of_log rfl, hdraft'⟩ (fun hf t hw => ?_)
      fun e t hw => ⟨hw.1, hw.2.weaken fun _ _ => trivial⟩
    exact ⟨hw.1, hw.2.weaken fun node hn => ⟨hn.2 hf, hn.1⟩⟩

/-- A draft is filled: after it the file holds all of it. -/
theorem safe_fill
    (h : Writing i first temp file (fun node => node.content = [] ∧ node.accepted = []) s) :
    Safe (Does blind) (Inv init) Rely i (Meanwhile i place raw first)
      (Ends (fun _ => Writing i first temp file fun node => node.content = raw ∧
        node.accepted = raw)
        (Writing i first temp file fun _ => True)) (fill file raw).run s := by
  have hmean : ∀ (R : Node → Prop) s, Writing i first temp file R s →
      Meanwhile i place raw first s :=
    fun R s h => .inl h.1
  refine safe_op writing_stable (hmean _) h fun t written u ht hw hdoes => ?_
  obtain ⟨hsince, hdraft⟩ := hw
  cases hdoes with
  | writeFails =>
    refine ⟨ht, fun j _ => Rely.refl j t, ?_⟩
    exact safe_ret (P := Writing i first temp file fun _ => True) writing_stable (hmean _)
      (fun s hs => hs) ⟨hsince, hdraft.weaken fun _ _ => trivial⟩
  | write _ _ node n content _ hnode hn hcontent haccepted hanswer =>
    obtain ⟨hinv, hrely, hdraft'⟩ := hdraft.put
      (fun node => node.accepted = raw.take n ∧ node.content <+: raw.take n)
      { node with content := content, accepted := node.accepted ++ raw.take n } ht (by
        intro old hold hempty
        rw [hnode] at hold
        cases hold
        rw [hempty.2, List.nil_append] at haccepted
        exact ⟨rfl, rfl, by simp [hempty.2], haccepted⟩)
    refine ⟨hinv, hrely, ?_⟩
    refine safe_ensure writing_stable (hmean _) ⟨hsince.of_log rfl, hdraft'⟩ (fun hall => ?_)
      fun e t hw => ⟨hw.1, hw.2.weaken fun _ _ => trivial⟩
    have hnraw : n = raw.length := (hanswer _ hall).symm
    rw [hnraw, List.take_length] at hdraft' ⊢
    exact safe_flush ⟨hsince.of_log rfl, hdraft'⟩

/-- Whether it goes well or not, closing keeps a draft, and keeps all of one that is flushed. -/
theorem close_draft {R : Node → Prop} (hs : Inv init s) (h : Writing i first temp file R s)
    (hdoes : Does blind i s (.close file) () t)
    (hR : ∀ node content, R node → node.content <+: content →
      content <+: node.accepted → R { node with content := content }) :
    Inv init t ∧ (∀ j, j ≠ i → Rely j s t) ∧ Writing i first temp file R t := by
  obtain ⟨hsince, hdraft⟩ := h
  cases hdoes with
  | closeFails => exact ⟨hs, fun j _ => Rely.refl j s, hsince, hdraft⟩
  | close _ node content hnode hcontent haccepted =>
    obtain ⟨hinv, hrely, hdraft'⟩ := hdraft.put R { node with content := content } hs (by
      intro old hold hRold
      rw [hnode] at hold
      cases hold
      exact ⟨rfl, rfl, hR node content hRold hcontent haccepted⟩)
    exact ⟨hinv, hrely, hsince.of_log rfl, hdraft'⟩

/-- The draft is closed too when filling it fails. -/
theorem safe_filled (hs : Inv init s)
    (h : Writing i first temp file (fun node => node.content = [] ∧ node.accepted = []) s) :
    Safe (Does blind) (Inv init) Rely i (Meanwhile i place raw first)
      (Ends (fun _ => Writing i first temp file fun node => node.content = raw ∧
        node.accepted = raw)
        (Writing i first temp file fun _ => True)) (filled file raw).run s := by
  have hmean : ∀ (R : Node → Prop) s, Writing i first temp file R s →
      Meanwhile i place raw first s :=
    fun R s h => .inl h.1
  refine safe_caught relies hs (safe_fill h) ?_ ?_
  · exact fun _ t ht hw => safe_ret writing_stable (hmean _) (fun s hs => hs) hw
  · intro e t ht hw
    refine safe_op writing_stable (hmean _) hw fun t' r u ht' hw' hdoes => ?_
    obtain ⟨hinv, hrely, hw''⟩ := close_draft ht' hw' hdoes fun _ _ _ _ _ => trivial
    exact ⟨hinv, hrely, safe_ret writing_stable (hmean _) (fun s hs => hs) hw''⟩

/-- A draft that is all there is put in its place, or stays a draft. -/
theorem safe_publish (hs : Inv init s) (htemp : ".new-".toList <:+: temp)
    (h : Writing i first temp file (fun node => node.content = [] ∧ node.accepted = []) s) :
    Safe (Does blind) (Inv init) Rely i (Meanwhile i place raw first)
      (Ends (fun _ s => Since i first s [⟨i, place.path, raw⟩])
        (Writing i first temp file fun _ => True)) (publish place.path temp file raw).run s := by
  have hmean : ∀ (R : Node → Prop) s, Writing i first temp file R s →
      Meanwhile i place raw first s :=
    fun R s h => .inl h.1
  have hdraft : ∀ (R : Node → Prop) s, Writing i first temp file R s →
      Writing i first temp file (fun _ => True) s := fun R s h =>
        ⟨h.1, h.2.weaken fun _ _ => trivial⟩
  refine safe_then relies hs (safe_filled hs h) ?_ ?_
  · intro _ t ht hw
    refine safe_op writing_stable (hmean _) hw fun t' r u ht' hw' hdoes => ?_
    obtain ⟨hinv, hrely, hfull⟩ := close_draft ht' hw' hdoes (by
      rintro node content ⟨hc, ha⟩ hlong hshort
      rw [hc] at hlong
      rw [ha] at hshort
      exact ⟨hshort.eq_of_length_le hlong.length_le, ha⟩)
    refine ⟨hinv, hrely, ?_⟩
    refine safe_target writing_stable (hmean _) hinv hfull (fun v hv hfull => ?_) fun e v hw =>
      hdraft _ _ hw
    refine safe_op writing_stable (hmean _) hfull fun v' renamed w hv' hfull hdoes => ?_
    obtain ⟨hsince, node, hname, hnode, hwriter, hcontent, -⟩ := hfull
    cases hdoes with
    | rename _ _ k node' hold hnode' _ =>
      rw [hname] at hold
      cases hold
      rw [hnode] at hnode'
      cases hnode'
      refine ⟨move_inv hv' hnode hwriter htemp,
        fun j hj => move_rely hv' hname hnode hwriter htemp place.plain hj, ?_⟩
      obtain ⟨l, hl, hdone⟩ := hsince
      have hmoved : Since i first (v'.move i temp place.path file node) [⟨i, place.path, raw⟩] := by
        refine ⟨l ++ [⟨i, place.path, raw⟩], ?_, by simp [hdone]⟩
        simp [Files.move, hl, hcontent]
      exact safe_ret (P := fun s => Since i first s [⟨i, place.path, raw⟩]) Since.stable
        (fun s hs => .inr hs) (fun s hs => hs) hmoved
    | renameFails =>
      refine ⟨hv', fun j _ => Rely.refl j v', ?_⟩
      exact safe_ret (P := Writing i first temp file fun _ => True) writing_stable (hmean _)
        (fun s hs => hs) ⟨hsince, node, hname, hnode, hwriter, trivial⟩
  · exact fun e t ht hw => safe_ret writing_stable (hmean _) (hdraft _) hw

/-- Once renamed it is reported, and what is reported as failed was not renamed. -/
theorem safe_write (hs : Inv init s) (h : Since i first s []) :
    Safe (Does blind) (Inv init) Rely i (Meanwhile i place raw first)
      (Ends (fun _ s => Since i first s [⟨i, place.path, raw⟩]) fun s => Since i first s [])
      (write place.path raw).run s := by
  have hmean : ∀ s, Since i first s [] → Meanwhile i place raw first s := fun s h => .inl h
  refine safe_target Since.stable hmean hs h (fun t ht h => ?_) fun e t h => h
  refine safe_op Since.stable hmean h fun t random u ht h hdoes => ?_
  obtain ⟨hu, hrely⟩ := quiet_keeps (.random 12) trivial t random u ht hdoes
  have hsince : Since i first u [] := Since.stable t u h (hrely i) hu
  refine ⟨hu, fun j _ => hrely j, ?_⟩
  cases random with
  | none => exact safe_ret Since.stable hmean (fun t h => h) hsince
  | some random =>
    refine safe_ensure Since.stable hmean hsince (fun _ => ?_) fun e t h => h
    refine safe_op Since.stable hmean hsince fun t file u ht h hdoes => ?_
    have htemp : ".new-".toList <:+: temporary place.path random :=
      ⟨place.path, hexenc random, rfl⟩
    cases hdoes with
    | createFails =>
      exact ⟨ht, fun j _ => Rely.refl j t, safe_ret Since.stable hmean (fun t h => h) h⟩
    | create _ k node hpath hk hkind hcontent haccepted hw =>
      obtain ⟨hinv, hrely⟩ := add_keeps ht hpath hk (fun h => absurd htemp h)
        (.inl hkind : node.kind = .file ∨ node.kind = .directory ∧ node.writer = none)
      refine ⟨hinv, fun j _ => hrely j, ?_⟩
      have hwriting : Writing i first (temporary place.path random) k
          (fun node => node.content = [] ∧ node.accepted = [])
          (t.add (temporary place.path random) k node) :=
        ⟨h.of_log rfl, node, by simp [Files.add], by simp [Files.add], hw, hcontent, haccepted⟩
      refine safe_caught relies hinv (safe_publish hinv htemp hwriting) ?_ ?_
      · exact fun _ t ht h => safe_ret Since.stable (fun s hs => .inr hs) (fun t h => h) h
      · intro e t ht h
        refine safe_op writing_stable (fun s hs => .inl hs.1) h fun t r u ht hw hdoes => ?_
        obtain ⟨hsince, draft, hname, hnode, hwriter, -⟩ := hw
        cases hdoes with
        | unlink =>
          obtain ⟨hinv', hrely'⟩ := drop_keeps ht hname hnode hwriter htemp
          exact ⟨hinv', hrely',
            safe_ret Since.stable hmean (fun t h => h) (hsince.of_log rfl)⟩
        | unlinkFails =>
          exact ⟨ht, fun j _ => Rely.refl j t, safe_ret Since.stable hmean (fun t h => h) hsince⟩

end Write

section Read
variable {first : Files} {place : Place} {limit file n : ℕ} {acc : Text} {v : Option Text}

/-- The path showed this at some moment since `first`. -/
def Showed (init : Text → Option Text) (first : Files) (path : Text) (v : Option Text)
    (s : Files) : Prop :=
  ∃ log, first.log <+: log ∧ log <+: s.log ∧ version init log path = v

theorem Showed.stable : Stable (Inv init) Rely i (Showed init first path v) := by
  rintro s t ⟨log, hfirst, hlog, hv⟩ hr -
  obtain ⟨l, hl, -⟩ := hr.log
  exact ⟨log, hfirst, hlog.trans ⟨l, hl.symm⟩, hv⟩

/-- Nothing is renamed by a reader. -/
def Reading (i : ℕ) (first s : Files) : Prop := Since i first s []

theorem Reading.showed (place : Place) (hs : Inv init s) (h : Reading i first s) :
    Showed init first place.path (s.shown place.path) s := by
  obtain ⟨l, hl, -⟩ := h
  exact ⟨s.log, ⟨l, hl.symm⟩, List.prefix_rfl, (hs.shows place.path place.plain).symm⟩

def NoLink (path : Text) (s : Files) : Prop := ∀ node, s.node path = some node → node.kind ≠ .link

theorem NoLink.stable : Stable (Inv init) Rely i (NoLink path) := by
  intro s t h hr _ node hnode hlink
  obtain ⟨old, hold, hk⟩ := hr.links path node hnode hlink
  exact h old hold hk

/-- The path was no link at first, or `lstat` would have told. -/
def Plain (blind : Prop) (path : Text) (first : Files) : Prop := blind → NoLink path first

/-- A file whose node is changed no more, of which `acc` is the beginning, and which is one the path
showed. -/
def Held (init : Text → Option Text) (first : Files) (path : Text) (file : ℕ) (acc : Text)
    (s : Files) : Prop :=
  ∃ node, s.nodes file = some node ∧ node.writer = none ∧ acc <+: node.content ∧
    (acc ≠ [] → node.kind = .file) ∧
    (node.kind = .file → Showed init first path (some node.content) s)

theorem Held.stable : Stable (Inv init) Rely i (Held init first path file acc) := by
  rintro s t ⟨node, hnode, hw, hacc, hfile, hshowed⟩ hr ht
  exact ⟨node, hr.nodes file node hnode (.inl hw), hw, hacc, hfile,
    fun hkind => Showed.stable s t (hshowed hkind) hr ht⟩

theorem Stable.imp {p : Prop} {P : Files → Prop} (h : Stable (Inv init) Rely i P) :
    Stable (Inv init) Rely i fun s => p → P s :=
  fun s t hP hr ht hp => h s t (hP hp) hr ht

/-- The file that was opened is held, unless a link was followed. -/
def Opened (blind : Prop) (init : Text → Option Text) (i : ℕ) (first : Files) (path : Text)
    (file : ℕ) (acc : Text) (s : Files) : Prop :=
  Reading i first s ∧ (Plain blind path first → Held init first path file acc s)

theorem Opened.stable : Stable (Inv init) Rely i (Opened blind init i first path file acc) :=
  Stable.and Since.stable (Stable.imp Held.stable)

/-- Up to `limit` letters of what the path showed. -/
def Fetched (blind : Prop) (init : Text → Option Text) (i : ℕ) (first : Files) (path : Text)
    (limit : ℕ) : Option Text → Files → Prop
  | none, s => Reading i first s
  | some raw, s => Reading i first s ∧ (Plain blind path first →
    ∃ content, Showed init first path (some content) s ∧ raw = content.take limit)

theorem Fetched.stable {raw : Option Text} :
    Stable (Inv init) Rely i (Fetched blind init i first path limit raw) := by
  intro s t h hr ht
  cases raw with
  | none => exact Since.stable s t h hr ht
  | some raw =>
    refine ⟨Since.stable s t h.1 hr ht, fun hplain => ?_⟩
    obtain ⟨content, hshowed, hraw⟩ := h.2 hplain
    exact ⟨content, Showed.stable s t hshowed hr ht, hraw⟩

theorem Fetched.reading {raw : Option Text} (h : Fetched blind init i first path limit raw s) :
    Reading i first s := by
  cases raw with
  | none => exact h
  | some raw => exact h.1

/-- At the end of the file, or of what may be read. -/
theorem Held.fetched (hs : Held init first path file acc s) (hfile : acc ≠ [] ∨
      ∃ node, s.nodes file = some node ∧ node.kind = .file)
    (hend : acc.length = limit ∨ ∃ node, s.nodes file = some node ∧ acc = node.content)
    (hlimit : acc.length ≤ limit) :
    ∃ content, Showed init first path (some content) s ∧ acc = content.take limit := by
  obtain ⟨node, hnode, -, hacc, hkind, hshowed⟩ := hs
  have hisfile : node.kind = .file := by
    rcases hfile with h | ⟨node', hnode', h⟩
    · exact hkind h
    · rw [hnode] at hnode'
      cases hnode'
      exact h
  refine ⟨node.content, hshowed hisfile, ?_⟩
  rcases hend with h | ⟨node', hnode', h⟩
  · rw [← h]
    exact List.prefix_iff_eq_take.1 hacc
  · rw [hnode] at hnode'
    cases hnode'
    rw [← h, List.take_of_length_le hlimit]

/-- A chunk that was read follows what was read before. -/
theorem Held.append {chunk : Text} (h : Held init first path file acc s)
    (hnode : s.nodes file = some node) (hkind : node.kind = .file)
    (hchunk : chunk <+: (node.content.drop acc.length).take n) :
    Held init first path file (acc ++ chunk) s := by
  obtain ⟨node', hnode', hw, hacc, hfile, hshowed⟩ := h
  rw [hnode] at hnode'
  cases hnode'
  refine ⟨node, hnode, hw, ?_, fun _ => hkind, hshowed⟩
  obtain ⟨rest, hrest⟩ := hacc
  rw [← hrest, List.drop_left] at hchunk
  rw [← hrest]
  exact (List.prefix_append_right_inj acc).2 (hchunk.trans (List.take_prefix n rest))

theorem safe_readRest (hn : acc.length + n = limit + 1)
    (h : Opened blind init i first path file acc s) :
    Safe (Does blind) (Inv init) Rely i (Reading i first)
      (Ends (Fetched blind init i first path (limit + 1)) (Reading i first))
      (readRest file n acc).run s := by
  induction n using Nat.strong_induction_on generalizing acc s with
  | _ n ih =>
  rw [readRest]
  split
  · next hzero =>
    have hall : acc ≠ [] := by
      rintro rfl
      rw [hzero] at hn
      cases hn
    exact safe_ret (P := Fetched blind init i first path (limit + 1) (some acc)) Fetched.stable
      (fun s hs => hs.reading) (fun s hs => hs)
      ⟨h.1, fun hplain => (h.2 hplain).fetched (.inl hall) (.inl (by omega)) (by omega)⟩
  · next hpos =>
    refine safe_op Opened.stable (fun s hs => hs.1) h fun t answer u ht h hdoes => ?_
    cases hdoes with
    | fetchFails =>
      refine ⟨ht, fun j _ => Rely.refl j t, ?_⟩
      exact safe_ret (P := Reading i first) Since.stable (fun s hs => hs) (fun s hs => hs) h.1
    | fetch _ _ _ node chunk hnode hkind hchunk hend =>
      refine ⟨ht, fun j _ => Rely.refl j t, ?_⟩
      cases chunk with
      | nil =>
        have hlast := hend rfl
        rw [List.take_eq_nil_iff, List.drop_eq_nil_iff] at hlast
        have hfetched (hplain : Plain blind path first) : ∃ content,
            Showed init first path (some content) t ∧ acc = content.take (limit + 1) := by
          have hheld := h.2 hplain
          have hwhole : acc = node.content := by
            obtain ⟨node', hnode', -, hacc, -⟩ := hheld
            rw [hnode] at hnode'
            cases hnode'
            exact hacc.eq_of_length_le (hlast.resolve_left hpos)
          exact hheld.fetched (.inr ⟨node, hnode, hkind⟩) (.inr ⟨node, hnode, hwhole⟩) (by omega)
        exact safe_ret (P := Fetched blind init i first path (limit + 1) (some acc)) Fetched.stable
          (fun s hs => hs.reading) (fun s hs => hs) ⟨h.1, hfetched⟩
      | cons c chunk =>
        have hlen : (c :: chunk).length ≤ n :=
          hchunk.length_le.trans (List.length_take_le n _)
        refine ih (n - (chunk.length + 1)) (by omega) ?_
          ⟨h.1, fun hplain => (h.2 hplain).append hnode hkind hchunk⟩
        simp only [List.length_append, List.length_cons] at hlen ⊢
        omega

/-- A path that was no link at first is none. -/
def Clear (blind : Prop) (path : Text) (first s : Files) : Prop :=
  Plain blind path first → NoLink path s

theorem Clear.stable : Stable (Inv init) Rely i (Clear blind path first) := Stable.imp NoLink.stable

/-- What passed as a target is not a link, and will not be one. -/
theorem safe_looked (hs : Inv init first) :
    Safe (Does blind) (Inv init) Rely i (Reading i first)
      (Ends (fun _ s => Reading i first s ∧ Clear blind path first s) (Reading i first))
      (target path).run first := by
  have hkept : Stable (Inv init) Rely i
      fun s => Reading i first s ∧ (NoLink path first → NoLink path s) :=
    Stable.and Since.stable (Stable.imp NoLink.stable)
  have h : Reading i first first ∧ (NoLink path first → NoLink path first) :=
    ⟨⟨[], by simp, rfl⟩, id⟩
  refine safe_ensure hkept (fun s hs => hs.1) h (fun _ => ?_) fun e t h => h.1
  refine safe_then relies hs (safe_quiet (fun o ho s r t => quiet_keeps o ho s r t) hkept
    (fun s hs => hs.1) (only_directory _) h) ?_ ?_
  · intro _ t ht h
    refine safe_op hkept (fun s hs => hs.1) h fun t info u ht h hdoes => ?_
    cases hdoes with
    | lstat =>
      refine ⟨ht, fun j _ => Rely.refl j t, ?_⟩
      refine safe_ensured (P := fun s => Reading i first s ∧ (((t.node path).map Node.info = none ∨
        fileMetadata ((t.node path).map Node.info)) → NoLink path s)) ?_
          (fun s hs => hs.1) ⟨h.1, ?_⟩
        (fun hp s hs => ⟨hs.1, fun _ => hs.2 hp⟩) fun e s hs => hs.1
      · exact Stable.and Since.stable (Stable.imp NoLink.stable)
      · intro hp node hnode hlink
        rw [hnode] at hp
        simp [fileMetadata, Node.info, hlink] at hp
    | lstatFails _ hblind =>
      refine ⟨ht, fun j _ => Rely.refl j t, ?_⟩
      exact safe_ensured hkept (fun s hs => hs.1) h
        (fun _ s hs => ⟨hs.1, fun hplain => hs.2 (hplain hblind)⟩) fun e s hs => hs.1
  · exact fun e t ht h => safe_ret Since.stable (fun s hs => hs) (fun s hs => hs) h.1

/-- `readfile` of what is no link. -/
theorem safe_readfile (h : Reading i first s ∧ Clear blind place.path first s) :
    Safe (Does blind) (Inv init) Rely i (Reading i first)
      (Ends (Fetched blind init i first place.path (limit + 1)) (Reading i first))
      (readfile place.path (limit + 1)).run s := by
  refine safe_op (Stable.and Since.stable Clear.stable) (fun s hs => hs.1) h
    fun t answer u ht h hdoes => ?_
  cases hdoes with
  | openFails =>
    refine ⟨ht, fun j _ => Rely.refl j t, ?_⟩
    exact safe_ret (P := Reading i first) Since.stable (fun s hs => hs) (fun s hs => hs) h.1
  | openLink _ k node hnode hlink =>
    refine ⟨ht, fun j _ => Rely.refl j t, ?_⟩
    exact safe_readRest (Nat.zero_add _)
      ⟨h.1, fun hplain => absurd hlink (h.2 hplain node hnode)⟩
  | openRead _ k node hname hnode hkind =>
    refine ⟨ht, fun j _ => Rely.refl j t, ?_⟩
    have hpath : t.node place.path = some node := by simp [Files.node, hname, hnode]
    refine safe_readRest (Nat.zero_add _) ⟨h.1, fun _ => ⟨node, hnode,
      ht.placed _ place.plain node hpath, List.nil_prefix, fun h => absurd rfl h, fun hfile => ?_⟩⟩
    have hshown : t.shown place.path = some node.content := by simp [Files.shown, hpath, hfile]
    rw [← hshown]
    exact Reading.showed place ht h.1

/-- When what a read returns tells what the path showed: `null` where no `lstat` can have failed,
and a text where the path was no link at first. -/
def Told (blind : Prop) (path : Text) (first : Files) : Option Text → Prop
  | none => ¬ blind
  | some _ => Plain blind path first

/-- What is read was shown while the call ran. -/
theorem safe_read (hs : Inv init first) :
    Safe (Does blind) (Inv init) Rely i (Reading i first)
      (Ends (fun v s => Reading i first s ∧
        (Told blind place.path first v → Showed init first place.path v s) ∧
        ∀ raw ∈ v, raw.length ≤ limit) (Reading i first)) (read place.path limit).run first := by
  refine safe_then relies hs (safe_looked hs) ?_ ?_
  · intro _ t ht h
    refine safe_op (Stable.and Since.stable Clear.stable) (fun s hs => hs.1) h
      fun t before u ht h hdoes => ?_
    cases hdoes with
    | lstat =>
      refine ⟨ht, fun j _ => Rely.refl j t, ?_⟩
      cases hnode : t.node place.path with
      | none =>
        have hnone : Showed init first place.path none t := by
          have hshowed := Reading.showed place ht h.1
          rwa [Files.shown, hnode, Option.bind_none] at hshowed
        exact safe_ret (P := fun s => Reading i first s ∧ Showed init first place.path none s)
          (Stable.and Since.stable Showed.stable) (fun s hs => hs.1)
          (fun s hs => ⟨hs.1, fun _ => hs.2, by simp⟩) ⟨h.1, hnone⟩
      | some before =>
        refine safe_ensure (Stable.and Since.stable Clear.stable) (fun s hs => hs.1) h (fun _ => ?_)
          fun e t h => h.1
        refine safe_then relies ht (safe_readfile h) ?_ ?_
        · intro raw t ht h
          refine safe_op Fetched.stable (fun s hs => hs.reading) h fun t after u ht h hdoes => ?_
          have hsame : u = t := by cases hdoes <;> rfl
          subst hsame
          refine ⟨ht, fun j _ => Rely.refl j u, ?_⟩
          cases raw with
          | none => exact safe_ret Since.stable (fun s hs => hs) (fun s hs => hs) h
          | some raw =>
            cases after with
            | none => exact safe_ret Since.stable (fun s hs => hs) (fun s hs => hs) h.1
            | some after =>
              refine safe_ensure Fetched.stable (fun s hs => hs.reading) h (fun hlimit => ?_)
                fun e t h => h.reading
              refine safe_ret Fetched.stable (fun s hs => hs.reading) (fun t ht => ?_) h
              have hle := hlimit.2.2.2
              refine ⟨ht.1, fun hplain => ?_, by simpa using hle⟩
              obtain ⟨content, hshowed, hraw⟩ := ht.2 hplain
              rw [hraw, List.length_take] at hle
              rwa [hraw, List.take_of_length_le (by omega)]
        · exact fun e t ht h => safe_ret Since.stable (fun s hs => hs) (fun s hs => hs) h
    | lstatFails _ hblind =>
      refine ⟨ht, fun j _ => Rely.refl j t, ?_⟩
      exact safe_ret (P := Reading i first) Since.stable (fun s hs => hs)
        (fun s hs => ⟨hs, fun htold => absurd hblind htold, by simp⟩) h.1
  · exact fun e t ht h => safe_ret Since.stable (fun s hs => hs) (fun s hs => hs) h

end Read

/-! Runs. -/

/-- What holds at any moment of a call. -/
def Call.During (i : ℕ) : Call → Files → Files → Prop
  | read _ _, first, s => Reading i first s
  | write place raw, first, s => Meanwhile i place raw first s

/-- What holds when a call has returned. -/
def Call.Returns (blind : Prop) (init : Text → Option Text) (i : ℕ) :
    Call → Files → Except Err (Option Text) → Files → Prop
  | read place limit, first, r, s => Ends (fun v s => Reading i first s ∧
      (Told blind place.path first v → Showed init first place.path v s) ∧
      ∀ raw ∈ v, raw.length ≤ limit) (Reading i first) r s
  | write place raw, first, r, s =>
    Ends (fun _ s => Since i first s [⟨i, place.path, raw⟩]) (fun s => Since i first s []) r s

theorem since_refl (i : ℕ) (s : Files) : Since i s s [] := ⟨[], by simp, rfl⟩

theorem safe_call (i : ℕ) (call : Call) (s : Files) (hs : Inv init s) :
    Safe (Does blind) (Inv init) Rely i (call.During i s) (call.Returns blind init i s)
      call.program s := by
  cases call with
  | read place limit => exact safe_read hs
  | write place raw =>
    refine safe_then relies hs (safe_write hs (since_refl i s)) ?_ ?_
    · exact fun _ t ht h => safe_ret Since.stable (fun s hs => .inr hs) (fun s hs => hs) h
    · exact fun e t ht h => safe_ret Since.stable (fun s hs => .inl hs) (fun s hs => hs) h

theorem during_stable (i : ℕ) (call : Call) (first : Files) :
    Stable (Inv init) Rely i (call.During i first) := by
  cases call with
  | read place limit => exact Since.stable
  | write place raw => exact meanwhile_stable

theorem does_log {o : Op} {r : Answer o} (h : Does blind i s o r t) :
    ∀ e ∈ t.log, e ∈ s.log ∨ e.who = i := by
  intro e he
  cases h with
  | rename old new k node =>
    refine (List.mem_append.1 he).imp id fun he => ?_
    rw [List.mem_singleton.1 he]
  | _ => exact .inl he

/-- Files nobody is writing. -/
structure Files.Settled (s : Files) : Prop where
  named : ∀ path k, s.names path = some k → ∃ node, s.nodes k = some node
  nodes : ∀ k node, s.nodes k = some node → node.writer = none
  log : s.log = []

theorem Files.Settled.inv (h : s.Settled) : Inv s.shown s where
  named := h.named
  placed path _ node hnode := by
    obtain ⟨k, -, hk⟩ := Option.bind_eq_some_iff.1 hnode
    exact h.nodes k node hk
  drafts k node hnode hw := absurd (h.nodes k node hnode) hw
  shows path _ := by simp [version, h.log]

abbrev Run := Threads.Config Call Files Op Answer (Except Err (Option Text))

/-- Only threads that were started rename, and not before they were. -/
structure Started (c : Run) : Prop where
  log : ∀ e ∈ c.state.log, ∃ thread, c.threads e.who = some thread
  first : ∀ i thread, c.threads i = some thread → ∀ e ∈ thread.first.log, e.who ≠ i

theorem Started.set {c : Run} (h : Started c) (i : ℕ)
    (thread : Thread Call Files Op Answer (Except Err (Option Text))) {t : Files}
    (hlog : ∀ e ∈ t.log, e ∈ c.state.log ∨ e.who = i) (hfirst : ∀ e ∈ thread.first.log, e.who ≠ i) :
    Started (({ c with state := t }).set i thread) where
  log e he := by
    by_cases hi : e.who = i
    · exact ⟨thread, by rw [hi, Threads.Config.set_self]⟩
    · obtain ⟨thread', h'⟩ := h.log e ((hlog e he).resolve_right hi)
      exact ⟨thread', by rwa [Threads.Config.set_of_ne _ _ hi]⟩
  first j thread' hj e he := by
    by_cases hi : j = i
    · subst hi
      rw [Threads.Config.set_self] at hj
      cases hj
      exact hfirst e he
    · rw [Threads.Config.set_of_ne _ _ hi] at hj
      exact h.first j thread' hj e he

theorem reachable_started {c : Run} (hs : s.Settled) (h : Reachable (Does blind) Call.program s c) :
    Started c := by
  induction h with
  | refl =>
    refine ⟨fun e he => ?_, fun i thread h => by cases h⟩
    have hnil : (Threads.Config.start s : Run).state.log = [] := hs.log
    rw [hnil] at he
    cases he
  | tail _ hstep ih =>
    cases hstep with
    | start i call hnew =>
      refine ih.set i _ (fun e he => .inl he) fun e he hi => ?_
      obtain ⟨thread, hthread⟩ := ih.log e he
      rw [hi, hnew] at hthread
      cases hthread
    | act i thread o next r t hi _ hdoes => exact ih.set i _ (does_log hdoes) (ih.first i thread hi)
    | kill i thread hi => exact ih.set i _ (fun e he => .inl he) (ih.first i thread hi)

/-- A commit of thread `i` is what its call was for, and its only one. -/
theorem During.own {call : Call} {first : Files} (h : call.During i first s)
    (hfirst : ∀ e ∈ first.log, e.who ≠ i) : s.log.filter (·.who = i) = [] ∨
      ∃ place raw, call = .write place raw ∧ s.log.filter (·.who = i) = [⟨i, place.path, raw⟩] := by
  have hnone : first.log.filter (·.who = i) = [] := by
    rw [List.filter_eq_nil_iff]
    intro e he
    simpa using hfirst e he
  have hown : ∀ done, Since i first s done → s.log.filter (·.who = i) = done := by
    rintro done ⟨l, hl, hdone⟩
    rw [hl, List.filter_append, hnone, hdone, List.nil_append]
  cases call with
  | read place limit => exact .inl (hown [] h)
  | write place raw =>
    rcases h with h | h
    · exact .inl (hown _ h)
    · exact .inr ⟨place, raw, rfl, hown _ h⟩

/-- What a finished call reports is so: a write that succeeded was done, whole, while it ran, one
that failed was not, and what was read was shown while it was read. -/
def Call.Reports (blind : Prop) (init : Text → Option Text) (i : ℕ) (first : Files)
    (log : List Commit) : Call → Except Err (Option Text) → Prop
  | write place raw, .ok _ => ∃ l, log = first.log ++ l ∧ ⟨i, place.path, raw⟩ ∈ l
  | write _ _, .error _ => ∀ e ∈ log, e.who ≠ i
  | read place limit, .ok v => (Told blind place.path first v → ∃ now, first.log <+: now ∧
      now <+: log ∧ version init now place.path = v) ∧ ∀ raw ∈ v, raw.length ≤ limit
  | read _ _, .error _ => True

theorem Call.Returns.reports {call : Call} {first : Files} {r : Except Err (Option Text)}
    (h : call.Returns blind init i first r s) (hfirst : ∀ e ∈ first.log, e.who ≠ i) :
    call.Reports blind init i first s.log r := by
  cases call with
  | read place limit =>
    cases r with
    | ok v => exact h.2
    | error e => trivial
  | write place raw =>
    cases r with
    | ok v =>
      obtain ⟨l, hl, hdone⟩ := h
      have hmem : (⟨i, place.path, raw⟩ : Commit) ∈ l.filter (·.who = i) := by simp [hdone]
      exact ⟨l, hl, List.mem_of_mem_filter hmem⟩
    | error e =>
      obtain ⟨l, hl, hdone⟩ := h
      intro e he
      rw [hl] at he
      rcases List.mem_append.1 he with he | he
      · exact hfirst e he
      · simpa using List.filter_eq_nil_iff.1 hdone e he

/-- Any number of readers and writers may run at once, be killed, and meet failures anywhere: every
place shows what its last rename put there, whole; each rename is one of a writer that was called
to do it, which does it once; and what a call returns is so. -/
theorem store_runs (blind : Prop) (hs : s.Settled) {c : Run}
    (h : Reachable (Does blind) Call.program s c) :
    (∀ place : Place, c.state.shown place.path = version s.shown c.state.log place.path) ∧
    (∀ e ∈ c.state.log, ∃ thread place, c.threads e.who = some thread ∧
      thread.call = .write place e.raw ∧ place.path = e.path) ∧
    (c.state.log.map Commit.who).Nodup ∧
    ∀ i thread r, c.threads i = some thread → thread.rest = some (.ret r) →
      thread.call.Reports blind s.shown i thread.first c.state.log r := by
  have hstarted := reachable_started hs h
  have hsafe := reachable_safe relies (fun i call s hs => safe_call i call s hs)
    (fun i call first => during_stable i call first) hs.inv h
  have hown : ∀ i thread, c.threads i = some thread →
      c.state.log.filter (·.who = i) = [] ∨ ∃ place raw, thread.call = .write place raw ∧
        c.state.log.filter (·.who = i) = [⟨i, place.path, raw⟩] := fun i thread hi =>
    During.own (reachable_meanwhile relies hsafe hi) (hstarted.first i thread hi)
  refine ⟨fun place => hsafe.1.shows place.path place.plain, fun e he => ?_, ?_,
    fun i thread r hi hrest => ?_⟩
  · obtain ⟨thread, hi⟩ := hstarted.log e he
    have hmem : e ∈ c.state.log.filter (·.who = e.who) := by simp [he]
    rcases hown e.who thread hi with hnone | ⟨place, raw, hcall, hone⟩
    · rw [hnone] at hmem
      cases hmem
    · rw [hone] at hmem
      have heq := List.mem_singleton.1 hmem
      refine ⟨thread, place, hi, ?_, ?_⟩
      · rw [hcall, heq]
      · rw [heq]
  · rw [List.nodup_iff_count_le_one]
    intro i
    have hcount : (c.state.log.map Commit.who).count i =
        (c.state.log.filter (·.who = i)).length := by
      rw [List.count, List.countP_map, List.countP_eq_length_filter]
      congr 1
    rw [hcount]
    by_cases hi : ∃ thread, c.threads i = some thread
    · obtain ⟨thread, hthread⟩ := hi
      rcases hown i thread hthread with hnone | ⟨place, raw, -, hone⟩
      · simp [hnone]
      · simp [hone]
    · have hnone : c.state.log.filter (·.who = i) = [] := by
        rw [List.filter_eq_nil_iff]
        intro e he hwho
        obtain ⟨thread, hthread⟩ := hstarted.log e he
        rw [of_decide_eq_true hwho] at hthread
        exact hi ⟨thread, hthread⟩
      simp [hnone]
  · exact (reachable_returned relies hsafe hi hrest).reports (hstarted.first i thread hi)

theorem bare_settled : Disk.bare.files.Settled where
  named := Disk.bare_named
  nodes k node h := (Disk.bare_nodes k node h).1
  log := rfl

def statePlace : Place := ⟨Disk.statePath, by decide⟩

theorem store_runs_once : ∃ c : Run, Reachable (Does True) Call.program Disk.bare.files c ∧
    ⟨0, Disk.statePath, "new".toList⟩ ∈ c.state.log := by
  have hstart : Reachable (Does True) Call.program Disk.bare.files
      ((Threads.Config.start Disk.bare.files : Run).set 0 ⟨.write statePlace "new".toList,
        Disk.bare.files, some (Call.write statePlace "new".toList).program⟩) :=
    .single (.start _ 0 _ rfl)
  have hseed : (List.replicate 12 7 : List UInt8).length = 12 := rfl
  obtain ⟨d', -, -, hran, -⟩ := Disk.write_ran 0 "new".toList Disk.bare_sound Disk.bare_target
    hseed rfl
  have hprogram : (Call.write statePlace "new".toList).program.exec
      (Disk.answer 0 (List.replicate 12 7)) Disk.bare = (.ok none, d') := hran.bind rfl
  obtain ⟨hreach, -⟩ := reachable_exec Disk.files (fun o d hd => Disk.answer_does True hd o) hstart
    (Threads.Config.set_self _ _ _) rfl rfl Disk.bare_sound
  rw [hprogram] at hreach
  obtain ⟨l, hl, hmem⟩ :=
    (store_runs True bare_settled hreach).2.2.2 0 _ _ (Threads.Config.set_self _ _ _) rfl
  refine ⟨_, hreach, ?_⟩
  rw [hl]
  exact List.mem_append_right _ hmem

end Foxhole.PrivateStore
