import Foxhole.BundleTransport
import Mathlib.Data.List.Perm.Subperm

/-! What the extraction of a bundle transport accepts: an archive of its members, each once and
whole, and nothing else but zeros; and what it leaves behind. -/
namespace Foxhole.Bundle
open Check Text Address Blocks

variable {env : Env} {members selected : List Member} {row : Member} {size consumed : ℕ}
  {p p' : Progress} {stage stage' : Stage} {value : Descriptor} {raw head : Text}

theorem zeros_eq_nulls (h : zeros raw = true) : raw = nulls raw.length := by
  rw [eq_nulls_iff]
  refine ⟨rfl, fun c hc => ?_⟩
  have hzero : c.toNat = 0 := of_decide_eq_true (List.all_eq_true.1 h c hc)
  rw [← Char.ofNat_toNat c, hzero, nul]

theorem zeros_nulls (n : ℕ) : zeros (nulls n) = true := by
  rw [zeros, List.all_eq_true]
  intro c hc
  rw [(eq_nulls_iff.1 rfl).2 c hc]
  rfl

theorem read_eq_ok {α : Type} {got : Option α} {a : α} : read got = .ok a ↔ got = some a := by
  cases got <;> simp [read]

/-- A member as it stands in the archive. -/
structure Part where
  row : Member
  head : Text
  body : Text

def Part.bytes (part : Part) : Text :=
  part.head ++ (part.body ++ nulls (padding 512 part.body.length))

/-- Its header names it, and its body is the one that is listed. -/
structure Part.Fits (env : Env) (members : List Member) (part : Part) : Prop where
  head : header part.head members = .ok part.row
  length : part.body.length = part.row.bytes
  digest : env.sha part.body = part.row.sha256

def Part.chosen (selected : List Member) (part : Part) : Bool :=
  part.row.name ∈ selected.map (·.name)

/-- The files of these parts are written. -/
def unpack (env : Env) (stage : Stage) (parts : List Part) : Stage :=
  parts.foldl (fun stage part => placed env stage part.row.name part.body) stage

theorem header_mem (h : header head members = .ok row) : row ∈ members ∧ head.length = 512 := by
  simp only [header, bind_eq_ok, require_eq_ok, pure_eq_ok] at h
  obtain ⟨-, hlen, row', hfind, -, -, -, -, rfl⟩ := h
  cases hf : members.find? (·.member = substr head 0 66) with
  | none => simp [hf] at hfind
  | some found =>
    simp only [hf, Option.elim_some, Except.ok.injEq] at hfind
    subst hfind
    exact ⟨List.mem_of_find?_eq_some hf, hlen⟩

/-- What a member takes from the input, and what it leaves. -/
theorem extractMember_ok (h : extractMember env selected row p = .ok p') :
    ∃ body, p.input = body ++ (nulls (padding 512 row.bytes) ++ p'.input) ∧
      body.length = row.bytes ∧ env.sha body = row.sha256 ∧ row.member ∉ p.seen ∧
      p'.seen = p.seen ++ [row.member] ∧
      if row.name ∈ selected.map (·.name) then
        p.stage row.name = none ∧ p'.written = p.written ++ [row.name] ∧
          p'.stage = placed env p.stage row.name body
      else p'.written = p.written ∧ p'.stage = p.stage := by
  simp only [extractMember, bind_eq_ok, require_eq_ok, pure_eq_ok, hashed, read_eq_ok] at h
  obtain ⟨-, hseen, -, hfree, ⟨body, input⟩, hbody, -, ⟨-, hdigest⟩, -, -, ⟨pad, input'⟩, hpad, -,
    hzeros, rfl⟩ := h
  dsimp only at hdigest hpad hzeros
  rw [readAll_eq, readExact_eq_some] at hbody
  rw [readExact_eq_some] at hpad
  obtain ⟨hinput, hlen⟩ := hbody
  obtain ⟨hinput', hlen'⟩ := hpad
  have hnulls := zeros_eq_nulls hzeros
  rw [hlen'] at hnulls
  refine ⟨body, ?_, hlen, Option.some.inj hdigest, hseen, rfl, ?_⟩
  · rw [hinput, hinput', hnulls]
  · split
    · next hchosen => exact ⟨hfree hchosen, rfl, rfl⟩
    · exact ⟨rfl, rfl⟩

theorem extractTrailer_ok (h : extractTrailer members size consumed p = .ok p') :
    ∃ tail, p.input = nulls tail ++ p'.input ∧ 512 ≤ tail ∧ tail ≤ 10752 ∧
      consumed + tail = size ∧ p.seen.length = members.length ∧
      p' = { p with input := p'.input } := by
  simp only [extractTrailer, bind_eq_ok, require_eq_ok, pure_eq_ok, read_eq_ok] at h
  obtain ⟨-, hfits, ⟨block, input⟩, hblock, -, hzeros, -, ⟨hmax, hall⟩, ⟨rest, input'⟩, hrest, -,
    hzeros', rfl⟩ := h
  dsimp only at hzeros hrest hzeros'
  rw [readExact_eq_some] at hblock
  rw [readAll_eq, readExact_eq_some] at hrest
  obtain ⟨hinput, hlen⟩ := hblock
  obtain ⟨hinput', hlen'⟩ := hrest
  have hnulls := zeros_eq_nulls hzeros
  have hnulls' := zeros_eq_nulls hzeros'
  refine ⟨block.length + rest.length, ?_, by omega, by omega, by omega, hall, rfl⟩
  have hjoin : block ++ rest = nulls (block.length + rest.length) := by
    rw [nulls_add]
    exact congrArg₂ (· ++ ·) hnulls hnulls'
  rw [← hjoin, hinput, hinput', List.append_assoc]

/-- What the whole loop has taken, and what it leaves. -/
structure Extracted (env : Env) (members selected : List Member) (p p' : Progress)
    (parts : List Part) : Prop where
  fits : ∀ part ∈ parts, part.Fits env members
  seen : p'.seen = p.seen ++ parts.map (·.row.member)
  fresh : p.seen.Nodup → p'.seen.Nodup
  all : p'.seen.length = members.length
  written : p'.written = p.written ++ (parts.filter (·.chosen selected)).map (·.row.name)
  stage : p'.stage = unpack env p.stage (parts.filter (·.chosen selected))
  free : ∀ part ∈ parts, part.chosen selected = true → p.stage part.row.name = none
  apart : ((parts.filter (·.chosen selected)).map (·.row.name)).Nodup

theorem placed_other {path path' content : Text} (h : path ≠ path') :
    placed env stage path' content path = stage path := Function.update_of_ne h ..

/-- A member before the rest of them. -/
theorem Extracted.cons {q : Progress} {parts : List Part} {head body : Text}
    (hdone : Extracted env members selected q p' parts)
    (hhead : header head members = .ok row) (hlen : body.length = row.bytes)
    (hdigest : env.sha body = row.sha256) (hnew : row.member ∉ p.seen)
    (hseen : q.seen = p.seen ++ [row.member])
    (hchosen : if row.name ∈ selected.map (·.name) then
        p.stage row.name = none ∧ q.written = p.written ++ [row.name] ∧
          q.stage = placed env p.stage row.name body
      else q.written = p.written ∧ q.stage = p.stage) :
    Extracted env members selected p p' (⟨row, head, body⟩ :: parts) := by
  have hfits : ∀ part ∈ (⟨row, head, body⟩ : Part) :: parts, part.Fits env members := by
    intro part hpart
    rcases List.mem_cons.1 hpart with rfl | hpart
    · exact ⟨hhead, hlen, hdigest⟩
    · exact hdone.fits part hpart
  have hmore : p'.seen = p.seen ++ ((⟨row, head, body⟩ : Part) :: parts).map (·.row.member) := by
    rw [hdone.seen, hseen, List.map_cons, List.append_assoc, List.singleton_append]
  have hfresh : p.seen.Nodup → p'.seen.Nodup := by
    intro hnodup
    refine hdone.fresh ?_
    rw [hseen, ← List.concat_eq_append]
    exact hnodup.concat hnew
  split at hchosen
  · next hin =>
    obtain ⟨hfree, hwritten, hstage⟩ := hchosen
    have hkeep : (((⟨row, head, body⟩ : Part) :: parts).filter (·.chosen selected)) =
        ⟨row, head, body⟩ :: parts.filter (·.chosen selected) :=
      List.filter_cons_of_pos (by simpa [Part.chosen] using hin)
    have hother : ∀ part ∈ parts, part.chosen selected = true → part.row.name ≠ row.name := by
      intro part hpart hc heq
      have hnone := hdone.free part hpart hc
      rw [heq, hstage, placed, Function.update_self] at hnone
      cases hnone
    refine ⟨hfits, hmore, hfresh, hdone.all, ?_, ?_, fun part hpart hc => ?_, ?_⟩
    · rw [hkeep, hdone.written, hwritten, List.map_cons, List.append_assoc, List.singleton_append]
    · rw [hkeep, hdone.stage, hstage]
      rfl
    · rcases List.mem_cons.1 hpart with rfl | hpart
      · exact hfree
      · have hnone := hdone.free part hpart hc
        rwa [hstage, placed_other (hother part hpart hc)] at hnone
    · rw [hkeep, List.map_cons, List.nodup_cons]
      refine ⟨fun hmem => ?_, hdone.apart⟩
      obtain ⟨part, hpart, heq⟩ := List.mem_map.1 hmem
      rw [List.mem_filter] at hpart
      exact hother part hpart.1 hpart.2 heq
  · next hout =>
    obtain ⟨hwritten, hstage⟩ := hchosen
    have hskip : (((⟨row, head, body⟩ : Part) :: parts).filter (·.chosen selected)) =
        parts.filter (·.chosen selected) :=
      List.filter_cons_of_neg (by simpa [Part.chosen] using hout)
    refine ⟨hfits, hmore, hfresh, hdone.all, ?_, ?_, fun part hpart hc => ?_, ?_⟩
    · rw [hskip, hdone.written, hwritten]
    · rw [hskip, hdone.stage, hstage]
    · rcases List.mem_cons.1 hpart with rfl | hpart
      · exact absurd (by simpa [Part.chosen] using hc) hout
      · have hnone := hdone.free part hpart hc
        rwa [hstage] at hnone
    · rw [hskip]
      exact hdone.apart

theorem extractFrom_ok (h : extractFrom env members selected size consumed p = .ok p') :
    ∃ parts tail, p.input = parts.flatMap Part.bytes ++ (nulls tail ++ p'.input) ∧
      1024 ≤ tail ∧ tail ≤ 11264 ∧
      consumed + (parts.flatMap Part.bytes).length + tail = size ∧
      Extracted env members selected p p' parts := by
  induction consumed, p using extractFrom.induct size with
  | case1 consumed p hshort =>
    rw [extractFrom, dif_pos hshort] at h
    cases h
  | case2 consumed p hlong ih =>
    rw [extractFrom, dif_neg hlong] at h
    simp only [bind_eq_ok, read_eq_ok] at h
    obtain ⟨⟨block, input⟩, hblock, h⟩ := h
    dsimp only at h
    obtain ⟨hinput, hlen⟩ := readExact_eq_some.1 hblock
    split at h
    · next hzeros =>
      obtain ⟨tail, htail, hmin, hmax, hsize, hall, hp'⟩ := extractTrailer_ok h
      have hnulls := zeros_eq_nulls hzeros
      rw [hlen] at hnulls
      dsimp only at htail
      refine ⟨[], 512 + tail, ?_, by omega, by omega, ?_, ?_⟩
      · rw [List.flatMap_nil, List.nil_append, hinput, htail, hnulls, nulls_add, List.append_assoc]
      · rw [List.flatMap_nil, List.length_nil]
        omega
      · rw [hp']
        constructor <;> simp [unpack, hall]
    · next hnonzero =>
      simp only [bind_eq_ok] at h
      obtain ⟨row, hheader, q, hmember, hrest⟩ := h
      obtain ⟨parts, tail, hrestinput, hmin, hmax, hsize, hdone⟩ := ih row q hrest
      obtain ⟨body, hbody, hbodylen, hdigest, hnew, hseen, hchosen⟩ := extractMember_ok hmember
      refine ⟨⟨row, block, body⟩ :: parts, tail, ?_, hmin, hmax, ?_, ?_⟩
      · dsimp only at hbody
        rw [List.flatMap_cons, Part.bytes, hinput, hbody, hrestinput, hbodylen]
        simp only [List.append_assoc]
      · rw [List.flatMap_cons, Part.bytes]
        simp only [List.length_append, length_nulls, hlen, hbodylen]
        omega
      · exact hdone.cons hheader hbodylen hdigest hnew hseen hchosen

theorem unpack_other {parts : List Part} {path : Text}
    (h : ∀ part ∈ parts, path ≠ part.row.name) : unpack env stage parts path = stage path := by
  induction parts generalizing stage with
  | nil => rfl
  | cons part parts ih =>
    obtain ⟨hpart, hparts⟩ := List.forall_mem_cons.1 h
    exact (ih hparts).trans (placed_other hpart)

/-- A file only its owner, root, can read, with this content. -/
def Holds (stage : Stage) (path content : Text) : Prop :=
  ∃ node, stage path = some node ∧ node.content = content ∧ node.isFile = true ∧ node.uid = 0 ∧
    node.nlink = 1 ∧ node.mode = 0o600

theorem holds_placed (path content : Text) : Holds (placed env stage path content) path content :=
  ⟨_, Function.update_self .., rfl, rfl, rfl, rfl, rfl⟩

theorem unpack_holds {parts : List Part} (hapart : (parts.map (·.row.name)).Nodup) :
    ∀ part ∈ parts, Holds (unpack env stage parts) part.row.name part.body := by
  induction parts generalizing stage with
  | nil => simp
  | cons part parts ih =>
    rw [List.map_cons, List.nodup_cons] at hapart
    refine List.forall_mem_cons.2 ⟨?_, ih hapart.2⟩
    have hwritten : Holds (placed env stage part.row.name part.body) part.row.name part.body :=
      holds_placed part.row.name part.body
    obtain ⟨node, hnode, hrest⟩ := hwritten
    have hkept : unpack env (placed env stage part.row.name part.body) parts part.row.name =
        placed env stage part.row.name part.body part.row.name :=
      unpack_other fun other hother heq => hapart.1 (heq ▸ List.mem_map_of_mem hother)
    exact ⟨node, hkept.trans hnode, hrest⟩

/-- What a checked descriptor says of the members. -/
theorem descriptor_members {json : Json} {sums : List (Text × Text)}
    {digest : Text → Checked Text} (h : descriptor json sums digest = .ok value) :
    (value.members.map (·.member)).Nodup ∧ (value.members.map fun row => lc row.name).Nodup ∧
      ∀ row ∈ value.members, sums.lookup row.name = some row.sha256 := by
  simp only [descriptor, bind_eq_ok, pure_eq_ok] at h
  obtain ⟨_, _, _, _, _, _, sha256, _, _, _, bytes, _, _, _, entries, _, _, _, members, hscan, _, _,
    rfl⟩ := h
  have hscanned : Scanned (fun row : Member => [Met.name (lc row.name), .member row.member])
      (fun _ row => sums.lookup row.name = some row.sha256) [] members := by
    refine scanned_of_scan (fun seen entry row hrow => ?_) hscan
    simp only [descriptorEntry, bind_eq_ok, require_eq_ok, pure_eq_ok] at hrow
    obtain ⟨_, _, _, ⟨_, hname, _⟩, sha256, _, _, hsum, bytes, _, digest, _, _, hmember, rfl⟩ :=
      hrow
    refine ⟨hsum, ?_⟩
    rw [List.disjoint_cons_left, List.disjoint_cons_left]
    exact ⟨hname, hmember, List.disjoint_nil_left _⟩
  exact ⟨hscanned.nodup_map_mem (k := Met.member) (by simp),
    hscanned.nodup_map_mem (k := Met.name) (by simp),
    hscanned.forall_mem fun _ _ h => h⟩

/-- The parts of an archive are its members, in some order. -/
theorem Extracted.perm {parts : List Part} (h : Extracted env members selected p p' parts)
    (hp : p.seen = []) :
    (parts.map (·.row)).Perm members := by
  have hseen : p'.seen = (parts.map (·.row)).map (·.member) := by
    rw [h.seen, hp, List.nil_append, List.map_map]
    rfl
  have hnodup : (parts.map (·.row)).Nodup := by
    refine List.Nodup.of_map (·.member) ?_
    rw [← hseen]
    exact h.fresh (by simp [hp])
  refine (hnodup.subperm fun row hrow => ?_).perm_of_length_le ?_
  · obtain ⟨part, hpart, rfl⟩ := List.mem_map.1 hrow
    exact (header_mem (h.fits part hpart).head).1
  · rw [← h.all, hseen, List.length_map]

theorem selection_ok {plan : Text} (h : selection plan value = .ok selected) :
    selected.Nodup ∧ ∀ row ∈ selected, row ∈ value.members := by
  simp only [selection, bind_eq_ok] at h
  obtain ⟨-, -, h⟩ := h
  refine foldlM_prefix
    (I := fun _ selected => selected.Nodup ∧ ∀ row ∈ selected, row ∈ value.members)
    (fun _ before line after hbefore hline => ?_) ⟨List.nodup_nil, by simp⟩ h
  simp only [selectionLine] at hline
  split at hline
  · cases hline
    exact hbefore
  · next row hfind =>
    simp only [bind_eq_ok, require_eq_ok, pure_eq_ok] at hline
    obtain ⟨-, -, -, ⟨-, -, -, -, hnew⟩, rfl⟩ := hline
    refine ⟨?_, fun other hother => ?_⟩
    · rw [← List.concat_eq_append]
      exact hbefore.1.concat hnew
    · rcases List.mem_append.1 hother with hother | hother
      · exact hbefore.2 other hother
      · rw [List.mem_singleton.1 hother]
        exact List.mem_of_find?_eq_some hfind

theorem regularNode_ok {path : Text} {maximum : ℕ} {empty : Bool} {node : Node}
    (h : regularNode stage path maximum empty = .ok node) : stage path = some node := by
  unfold regularNode at h
  split at h
  · cases h
  · next info hinfo =>
    simp only [bind_eq_ok, pure_eq_ok] at h
    obtain ⟨-, -, rfl⟩ := h
    exact hinfo

/-- An archive is the members of the descriptor, in some order, each once with the bytes that are
listed for it, and zeros; of these the selected ones are new files after the extraction, with the
list of their names, and nothing else has changed. -/
structure Extraction (env : Env) (value : Descriptor) (stage stage' : Stage) (archive : Text)
    (selected : List Member) (parts : List Part) (tail : ℕ) : Prop where
  digest : env.sha archive = value.archive.sha256
  bytes : archive = parts.flatMap Part.bytes ++ nulls tail
  tail : 1024 ≤ tail ∧ tail ≤ 11264
  members : (parts.map (·.row)).Perm value.members
  fits : ∀ part ∈ parts, part.Fits env value.members
  files : ∀ part ∈ parts, part.row ∈ selected →
    stage part.row.name = none ∧ Holds stage' part.row.name part.body
  list : ∃ names : List Text, names.Perm (selected.map (·.name)) ∧
    Holds stage' listName (['\n'].intercalate names ++ ['\n'])
  other : ∀ path, path ≠ listName → path ∉ selected.map (·.name) → stage' path = stage path

theorem settings_members (h : settings env stage = .ok value) :
    (value.members.map fun row => lc row.name).Nodup := by
  simp only [settings, bind_eq_ok, pure_eq_ok] at h
  obtain ⟨_, _, sums, _, _, _, _, _, json, _, value', hvalue, _, _, rfl⟩ := h
  exact (descriptor_members hvalue).2.1

/-- The names of the members are told apart, so what is chosen by its name is selected. -/
theorem chosen_iff {part : Part} (hnames : (members.map fun row => lc row.name).Nodup)
    (hrow : part.row ∈ members) (hselected : ∀ row ∈ selected, row ∈ members) :
    part.chosen selected = true ↔ part.row ∈ selected := by
  rw [Part.chosen, decide_eq_true_eq]
  constructor
  · intro hname
    obtain ⟨row, hmem, heq⟩ := List.mem_map.1 hname
    have hsame : row = part.row :=
      List.inj_on_of_nodup_map hnames (hselected row hmem) hrow (congrArg lc heq)
    exact hsame ▸ hmem
  · exact List.mem_map_of_mem

end Foxhole.Bundle
