import Foxhole.BundleExtract

/-! An archive that is as it should be is extracted. -/
namespace Foxhole.Bundle
open Check Text Address Blocks

variable {env : Env} {members selected : List Member} {row : Member} {size consumed : ℕ}
  {p : Progress} {stage : Stage} {value : Descriptor} {head body rest : Text} {n : ℕ}

/-! Extraction of an archive that is as it should be. -/

theorem readExact_append {α : Type} {l rest : List α} (h : l.length = n) :
    readExact n (l ++ rest) = some (l, rest) := readExact_eq_some.2 ⟨rfl, h⟩

theorem header_not_zeros (h : header head members = .ok row) : zeros head = false := by
  simp only [header, bind_eq_ok, require_eq_ok, pure_eq_ok] at h
  obtain ⟨-, -, row', -, -, hfields, -⟩ := h
  have hmagic := hfields.2.2.2.2.2.2.2.1
  rw [Bool.eq_false_iff]
  intro hzeros
  have hu : 'u' ∈ head := by
    have hin : 'u' ∈ substr head 257 8 := by
      rw [hmagic]
      simp
    exact List.mem_of_mem_drop (List.mem_of_mem_take hin)
  have hzero := List.all_eq_true.1 hzeros 'u' hu
  exact absurd hzero (by decide)

theorem holds_regular {path : Text} (h : Holds stage path body) (maximum : ℕ)
    (hmax : body.length ≤ maximum) (empty : Bool) (hempty : empty = true ∨ body ≠ []) :
    (regularNode stage path maximum empty).isOk = true := by
  obtain ⟨node, hnode, rfl, hfile, huid, hnlink, hmode⟩ := h
  have hok : regularNode stage path maximum empty = .ok node := by
    simp only [regularNode, hnode, bind_eq_ok, require_eq_ok, pure_eq_ok, exists_const, and_true]
    refine ⟨hfile, huid, hnlink, ?_, hmax, hempty⟩
    rw [hmode]
    decide
  rw [hok]
  rfl

/-- How far one is after a member. -/
def Progress.took (env : Env) (selected : List Member) (p : Progress) (part : Part) (rest : Text) :
    Progress where
  input := rest
  seen := p.seen ++ [part.row.member]
  written := if part.row.name ∈ selected.map (·.name) then p.written ++ [part.row.name]
    else p.written
  stage := if part.row.name ∈ selected.map (·.name) then placed env p.stage part.row.name part.body
    else p.stage

/-- A member that fits is taken. -/
theorem extractMember_fits {part : Part} (hfit : part.Fits env members)
    (hinput : p.input = part.body ++ (nulls (padding 512 part.row.bytes) ++ rest))
    (hnew : part.row.member ∉ p.seen) (hhash : p.stage hashPath = none)
    (hfree : part.row.name ∈ selected.map (·.name) → p.stage part.row.name = none) :
    extractMember env selected part.row p = .ok (p.took env selected part rest) := by
  simp only [extractMember, bind_eq_ok, require_eq_ok, pure_eq_ok, hashed, read_eq_ok, readAll_eq]
  refine ⟨(), hnew, (), hfree, (part.body, _), hinput ▸ readExact_append hfit.length, (),
    ⟨hhash, by rw [hfit.digest]⟩, (), fun hchosen => ?_, (nulls _, rest),
    readExact_append (length_nulls _), (), zeros_nulls _, rfl⟩
  rw [if_pos hchosen]
  refine holds_regular (holds_placed part.row.name part.body) part.row.bytes hfit.length.le _ ?_
  by_cases hzero : part.row.bytes = 0
  · exact .inl (decide_eq_true hzero)
  · refine .inr fun hnil => hzero ?_
    rw [← hfit.length, hnil, List.length_nil]

theorem extractTrailer_fits {tail : ℕ} (hinput : p.input = nulls tail) (hmin : 512 ≤ tail)
    (hmax : tail ≤ 10752) (hsize : consumed + tail = size) (hall : p.seen.length = members.length) :
    extractTrailer members size consumed p = .ok { p with input := [] } := by
  have hsplit : nulls tail = nulls 512 ++ (nulls (tail - 512) ++ []) := by
    rw [List.append_nil, ← nulls_add, Nat.add_sub_cancel' hmin]
  simp only [extractTrailer, bind_eq_ok, require_eq_ok, pure_eq_ok, read_eq_ok, readAll_eq]
  have hfirst : readExact 512 p.input = some (nulls 512, nulls (tail - 512) ++ []) := by
    rw [hinput, hsplit]
    exact readExact_append (length_nulls 512)
  refine ⟨(), by omega, _, hfirst, (), zeros_nulls 512, (), ⟨by omega, hall⟩,
    (nulls (tail - 512), []),
    readExact_append ?_, (), zeros_nulls (tail - 512), rfl⟩
  · rw [length_nulls]
    omega

/-- How far one gets with these parts. -/
def Progress.after (env : Env) (selected : List Member) (p : Progress) (parts : List Part) :
    Progress where
  input := []
  seen := p.seen ++ parts.map (·.row.member)
  written := p.written ++ (parts.filter (·.chosen selected)).map (·.row.name)
  stage := unpack env p.stage (parts.filter (·.chosen selected))

theorem extractFrom_fits {parts : List Part} {tail : ℕ}
    (hinput : p.input = parts.flatMap Part.bytes ++ nulls tail) (hmin : 1024 ≤ tail)
    (hmax : tail ≤ 11264) (hsize : consumed + p.input.length = size)
    (hfits : ∀ part ∈ parts, part.Fits env members)
    (hseen : (p.seen ++ parts.map (·.row.member)).Nodup)
    (hall : p.seen.length + parts.length = members.length) (hhash : p.stage hashPath = none)
    (hplain : ∀ part ∈ parts, hashPath ≠ part.row.name)
    (hfree : ∀ part ∈ parts, part.chosen selected = true → p.stage part.row.name = none)
    (hapart : (parts.map (·.row.name)).Nodup) :
    extractFrom env members selected size consumed p = .ok (p.after env selected parts) := by
  induction parts generalizing p consumed with
  | nil =>
    have hsplit : p.input = nulls 512 ++ nulls (tail - 512) := by
      rw [hinput, List.flatMap_nil, List.nil_append, ← nulls_add, Nat.add_sub_cancel' (by omega)]
    have hlen : p.input.length = tail := by simp [hinput]
    rw [extractFrom, dif_neg (by omega)]
    simp only [bind_eq_ok, read_eq_ok]
    have hfirst : readExact 512 p.input = some (nulls 512, nulls (tail - 512)) := by
      rw [hsplit]
      exact readExact_append (length_nulls 512)
    refine ⟨_, hfirst, ?_⟩
    rw [if_pos (zeros_nulls 512), extractTrailer_fits rfl (by omega) (by omega) (by omega)
      (by simpa using hall)]
    simp [Progress.after, unpack]
  | cons part parts ih =>
    obtain ⟨hfit, hfits⟩ := List.forall_mem_cons.1 hfits
    obtain ⟨hother, hplain⟩ := List.forall_mem_cons.1 hplain
    obtain ⟨hpartfree, hfree⟩ := List.forall_mem_cons.1 hfree
    rw [List.map_cons, List.nodup_cons] at hapart
    rw [List.flatMap_cons, Part.bytes, hfit.length] at hinput
    simp only [List.append_assoc] at hinput
    have hhead := (header_mem hfit.head).2
    have hlen := congrArg List.length hinput
    simp only [List.length_append, hhead, hfit.length, length_nulls] at hlen
    have hchosen : part.row.name ∈ selected.map (·.name) ↔ part.chosen selected = true := by
      simp [Part.chosen]
    have hnew : part.row.member ∉ p.seen := by
      rw [List.map_cons, List.nodup_append] at hseen
      exact fun hmem => hseen.2.2 _ hmem _ List.mem_cons_self rfl
    have hmember : extractMember env selected part.row { p with input := part.body ++
        (nulls (padding 512 part.row.bytes) ++ (parts.flatMap Part.bytes ++ nulls tail)) } =
        .ok (p.took env selected part (parts.flatMap Part.bytes ++ nulls tail)) :=
      extractMember_fits hfit rfl hnew hhash fun h => hpartfree (hchosen.1 h)
    have hrest : extractFrom env members selected size
        (consumed + 512 + part.row.bytes + padding 512 part.row.bytes)
        (p.took env selected part (parts.flatMap Part.bytes ++ nulls tail)) =
        .ok ((p.took env selected part (parts.flatMap Part.bytes ++ nulls tail)).after env selected
          parts) := by
      refine ih rfl ?_ hfits ?_ ?_ ?_ hplain (fun other hmem hc => ?_) hapart.2
      · simp only [Progress.took, List.length_append, length_nulls] at hlen ⊢
        omega
      · simpa [Progress.took, List.append_assoc] using hseen
      · simp only [Progress.took, List.length_append, List.length_cons, List.length_nil] at hall ⊢
        omega
      · simp only [Progress.took]
        split
        · rwa [placed_other hother]
        · exact hhash
      · have hne : other.row.name ≠ part.row.name := fun heq =>
          hapart.1 (heq ▸ List.mem_map_of_mem hmem)
        simp only [Progress.took]
        split
        · rw [placed_other hne]
          exact hfree other hmem hc
        · exact hfree other hmem hc
    have hafter : (p.took env selected part (parts.flatMap Part.bytes ++ nulls tail)).after
        env selected parts = p.after env selected (part :: parts) := by
      by_cases hc : part.chosen selected = true
      · simp only [Progress.after, Progress.took, if_pos (hchosen.2 hc), List.filter_cons_of_pos hc,
          List.map_cons, List.append_assoc, List.singleton_append]
        rfl
      · simp only [Progress.after, Progress.took, if_neg fun h => hc (hchosen.1 h),
          List.filter_cons_of_neg hc, List.map_cons, List.append_assoc, List.singleton_append]
    rw [extractFrom, dif_neg (by omega)]
    simp only [bind_eq_ok, read_eq_ok]
    have hfirst : readExact 512 p.input = some (part.head, part.body ++
        (nulls (padding 512 part.row.bytes) ++ (parts.flatMap Part.bytes ++ nulls tail))) := by
      rw [hinput]
      exact readExact_append hhead
    refine ⟨_, hfirst, ?_⟩
    rw [if_neg (by simp [header_not_zeros hfit.head])]
    simp only [bind_eq_ok]
    exact ⟨part.row, hfit.head, _, hmember, hafter ▸ hrest⟩

/-- What is chosen by name among all the members are the selected ones. -/
theorem chosen_length {parts : List Part} (hperm : (parts.map (·.row)).Perm members)
    (hnames : (members.map fun row => lc row.name).Nodup) (hnodup : selected.Nodup)
    (hselected : ∀ row ∈ selected, row ∈ members) :
    (parts.filter (·.chosen selected)).length = selected.length := by
  have hmem : ∀ part ∈ parts, part.row ∈ members := fun part hpart =>
    hperm.subset (List.mem_map_of_mem hpart)
  have hrows : (parts.filter (·.chosen selected)).map (·.row) =
      (parts.map (·.row)).filter (· ∈ selected) := by
    rw [List.filter_map]
    congr 1
    refine List.filter_congr fun part hpart => ?_
    rw [Bool.eq_iff_iff, chosen_iff hnames (hmem part hpart) hselected]
    simp
  have hmembers : members.Nodup := List.Nodup.of_map _ hnames
  have hsame : (members.filter (· ∈ selected)).Perm selected := by
    refine (List.perm_ext_iff_of_nodup (hmembers.filter _) hnodup).2 fun row => ?_
    rw [List.mem_filter, decide_eq_true_eq]
    exact ⟨fun h => h.2, fun h => ⟨hselected row h, h⟩⟩
  have hlen := ((hperm.filter (· ∈ selected)).trans hsame).length_eq
  rw [← hlen, ← hrows, List.length_map]

/-- An archive that is as it should be is extracted. -/
theorem extract_fits {archive plan : Node} {parts : List Part} {tail : ℕ}
    (harchive : regularNode stage "native-install.tar".toList 536870912 false = .ok archive)
    (hsame : sameIdentity archive archive = true)
    (hsize : archive.content.length = value.archive.bytes)
    (hdigest : env.sha archive.content = value.archive.sha256)
    (hplan : regularNode stage "plan.list".toList 1048576 false = .ok plan)
    (hselected : selection plan.content value = .ok selected)
    (hbytes : archive.content = parts.flatMap Part.bytes ++ nulls tail) (hmin : 1024 ≤ tail)
    (hmax : tail ≤ 11264) (hfits : ∀ part ∈ parts, part.Fits env value.members)
    (hperm : (parts.map (·.row)).Perm value.members)
    (hmembers : (value.members.map (·.member)).Nodup)
    (hnames : (value.members.map fun row => lc row.name).Nodup)
    (hhash : stage hashPath = none) (hlist : stage listName = none)
    (hplain : ∀ part ∈ parts, hashPath ≠ part.row.name ∧ listName ≠ part.row.name)
    (hfree : ∀ part ∈ parts, part.chosen selected = true → stage part.row.name = none) :
    ∃ stage', extract env value stage = .ok stage' ∧
      ∀ part ∈ parts, part.chosen selected = true → Holds stage' part.row.name part.body := by
  have hapart : (parts.map (·.row.name)).Nodup := by
    have hlower : (parts.map fun part => lc part.row.name).Nodup := by
      have hmap := (hperm.map fun row => lc row.name).nodup_iff.2 hnames
      rwa [List.map_map] at hmap
    exact List.Nodup.of_map lc (by rwa [List.map_map])
  have hseen : (parts.map (·.row.member)).Nodup := by
    have hmap := (hperm.map (·.member)).nodup_iff.2 hmembers
    rwa [List.map_map] at hmap
  have hcount : parts.length = value.members.length := by
    rw [← hperm.length_eq, List.length_map]
  have hfrom : extractFrom env value.members selected archive.content.length 0
      ⟨archive.content, [], [], stage⟩ =
      .ok (Progress.after env selected ⟨archive.content, [], [], stage⟩ parts) :=
    extractFrom_fits hbytes hmin hmax (Nat.zero_add _) hfits (by simpa using hseen)
      (by simpa using hcount) hhash (fun part h => (hplain part h).1) hfree hapart
  have hkept : ∀ path, (∀ part ∈ parts, path ≠ part.row.name) →
      unpack env stage (parts.filter (·.chosen selected)) path = stage path := fun path hpath =>
    unpack_other fun part hpart => hpath part (List.mem_of_mem_filter hpart)
  have hwhole : readAll 65535 archive.content.length archive.content = some
      (archive.content, []) := by
    rw [readAll_eq]
    exact readExact_eq_some.2 ⟨(List.append_nil _).symm, rfl⟩
  have hafter : regularNode (unpack env stage (parts.filter (·.chosen selected)))
      "native-install.tar".toList 536870912 false = .ok archive := by
    have hpath : unpack env stage (parts.filter (·.chosen selected)) "native-install.tar".toList =
        stage "native-install.tar".toList := by
      refine unpack_other fun part hpart heq => ?_
      obtain ⟨hpart, hc⟩ := List.mem_filter.1 hpart
      have hnone := hfree part hpart hc
      rw [← heq, regularNode_ok harchive] at hnone
      cases hnone
    rw [regularNode, hpath]
    exact harchive
  refine ⟨placed env (unpack env stage (parts.filter (·.chosen selected))) listName
    (['\n'].intercalate ((parts.filter (·.chosen selected)).map (·.row.name)) ++ ['\n']), ?_,
    fun part hpart hc => ?_⟩
  · simp only [extract, bind_eq_ok, require_eq_ok, pure_eq_ok, hashed, read_eq_ok, raw]
    refine ⟨archive, harchive, (), hsize, _, hwhole, (), ⟨hhash, by rw [hdigest]⟩, plan.content,
      ⟨plan, hplan, rfl⟩, selected, hselected, _, hfrom, archive, hafter, (), hsame, (),
      ?_, (), ?_, rfl⟩
    · simp only [Progress.after, List.nil_append, List.length_map]
      exact chosen_length hperm hnames (selection_ok hselected).1 (selection_ok hselected).2
    · exact (hkept listName fun part h => (hplain part h).2).trans hlist
  · have hholds : ∀ part ∈ parts.filter (·.chosen selected),
        Holds (unpack env stage (parts.filter (·.chosen selected))) part.row.name part.body :=
      unpack_holds ((List.filter_sublist.map _).nodup hapart)
    obtain ⟨node, hnode, hrest⟩ := hholds part (List.mem_filter.2 ⟨hpart, hc⟩)
    exact ⟨node, (placed_other fun heq => (hplain part hpart).2 heq.symm).trans hnode, hrest⟩

end Foxhole.Bundle
