import Foxhole.BundleSource

/-! A bundle transport that was built is accepted and extracted, and what is extracted was in the
archive. -/
namespace Foxhole.Bundle
open Check Text Address Blocks

variable {host : Host} {root : Dir} {env : Env} {row : Text × Row} {entries : List (Text × Row)}
  {expected : Text} {built : Built} {stage stage' : Stage} {value : Descriptor}

/-! What is built. -/

/-- The files of a build, with what is in them. -/
structure Made (host : Host) (entries : List (Text × Row)) (built : Built) (members : Text) :
    Prop where
  length : (members ++ close members.length).length = tarBytes (entries.filter isArchived)
  archive : built.archive =
    ⟨host.sha (members ++ close members.length), (members ++ close members.length).length⟩
  descriptor :
    ((transport built.archive (entries.filter isArchived)).dumps ++ ['\n']).length ≤ 1048576
  archive_mem : (archiveName, members ++ close members.length) ∈ built.output
  descriptor_mem : (descriptorName,
    (transport built.archive (entries.filter isArchived)).dumps ++ ['\n']) ∈ built.output
  sums_mem : (sumsName, outerSums host entries (members ++ close members.length)
    ((transport built.archive (entries.filter isArchived)).dumps ++ ['\n'])) ∈ built.output

theorem build_made (hcheck : checkBundle host root expected = .ok entries)
    (h : build host root expected = .ok built) : ∃ members,
      tarMembers host root (sortedItems (entries.filter isArchived)) = .ok members ∧
      Made host entries built members := by
  simp only [build, bind_eq_ok, require_eq_ok, pure_eq_ok] at h
  obtain ⟨entries', hentries, members, hmembers, -, hlength, -, hdescriptor, others, -, rfl⟩ := h
  obtain rfl : entries = entries' := Except.ok.inj (hcheck.symm.trans hentries)
  exact ⟨members, hmembers, hlength, rfl, hdescriptor, by simp, by simp, by simp⟩

theorem archived_head (h : isArchived row = true) : row.1.head? = some 'a' := by
  obtain ⟨u, v, hrow, hu, -⟩ := Regex.mem_lang_seq.1 (Regex.accepts_iff.1 h)
  obtain rfl := Regex.lang_lit.1 hu
  rw [hrow]
  rfl

theorem archived_plain (h : isArchived row = true) :
    lc row.1 ∉ FOLDED ∧ hashPath ≠ row.1 ∧ listName ≠ row.1 := by
  have hhead := archived_head h
  have hlower : (lc row.1).head? = some 'a' := by
    rw [lc, List.head?_map, hhead]
    rfl
  refine ⟨fun hmem => ?_, ?_, ?_⟩
  · have hnone : ∀ t ∈ FOLDED, t.head? ≠ some 'a' := by decide
    exact hnone _ hmem hlower
  · rintro heq
    rw [← heq] at hhead
    revert hhead
    decide
  · rintro heq
    rw [← heq] at hhead
    revert hhead
    decide

/-! The transport on the router. -/

/-- What the reader takes a transport for. -/
def described (host : Host) (archive : Row) (archived : List (Text × Row)) : Descriptor where
  archive := ⟨archiveName, archive.sha256, archive.bytes⟩
  members := (sortedItems archived).map (memberOf host.sha)
  totalBytes := ((sortedItems archived).map (·.2.bytes)).sum

/-- A file of root that no one else writes to. -/
def Kept (stage : Stage) (path content : Text) : Prop :=
  ∃ node, stage path = some node ∧ node.content = content ∧ node.isFile = true ∧ node.uid = 0 ∧
    node.nlink = 1 ∧ node.mode &&& 0o022 = 0

theorem Kept.regular {path content : Text} {maximum : ℕ} (h : Kept stage path content)
    (hmax : content.length ≤ maximum) (hne : content ≠ []) :
    ∃ node, regularNode stage path maximum false = .ok node ∧ stage path = some node ∧
      node.content = content := by
  obtain ⟨node, hnode, rfl, hfile, huid, hnlink, hmode⟩ := h
  refine ⟨node, ?_, hnode, rfl⟩
  simp only [regularNode, hnode, bind_eq_ok, require_eq_ok, pure_eq_ok, exists_const, and_true]
  exact ⟨hfile, huid, hnlink, hmode, hmax, .inr hne⟩

theorem Kept.raw {path content : Text} {maximum : ℕ} (h : Kept stage path content)
    (hmax : content.length ≤ maximum) (hne : content ≠ []) :
    raw stage path maximum = .ok content := by
  obtain ⟨node, hnode, -, rfl⟩ := h.regular hmax hne
  simp only [Bundle.raw, bind_eq_ok, pure_eq_ok]
  exact ⟨node, hnode, rfl⟩

/-- The files of a transport that the router has fetched, in a stage without those that its own
steps make. -/
structure Staged (built : Built) (stage : Stage) : Prop where
  files : ∀ file ∈ built.output, file.1 ∈ [sumsName, descriptorName, archiveName] →
    Kept stage file.1 file.2
  device : ∀ node, stage archiveName = some node → sameIdentity node node = true
  hash : stage hashPath = none
  list : stage listName = none

section Router
variable {members : Text}

/-- What is known of a build and of the router that reads it. -/
structure Meeting (host : Host) (env : Env) (root : Dir) (entries : List (Text × Row))
    (built : Built) (members : Text) (stage : Stage) : Prop where
  sha : ∀ t, hashShape.accepts (host.sha t) = true
  same : env.sha = host.sha
  sourced : ∀ row ∈ entries, Sourced host root row
  names : (entries.map fun row => lc row.1).Nodup
  digests : ∀ row ∈ entries, ∀ other ∈ entries, host.sha row.1 = host.sha other.1 → row.1 = other.1
  bounded : Bounded entries (entries.filter isArchived)
  tar : tarMembers host root (sortedItems (entries.filter isArchived)) = .ok members
  made : Made host entries built members
  json : env.json ((transport built.archive (entries.filter isArchived)).dumps ++ ['\n']) =
    some (parsed built.archive (sortedItems (entries.filter isArchived)))
  staged : Staged built stage

theorem mem_sorted {archived : List (Text × Row)} : row ∈ sortedItems archived ↔ row ∈ archived :=
  List.mem_insertionSort _

/-- A member of the archive is an entry of the source. -/
theorem mem_archived (h : row ∈ sortedItems (entries.filter isArchived)) :
    row ∈ entries ∧ isArchived row = true :=
  List.mem_filter.1 (mem_sorted.1 h)

theorem Meeting.sorted_names (h : Meeting host env root entries built members stage) :
    ((sortedItems (entries.filter isArchived)).map fun row => lc row.1).Nodup := by
  have hperm := (List.perm_insertionSort (fun x y : Text × Row => x.1 ≤ y.1)
    (entries.filter isArchived)).map fun row => lc row.1
  exact hperm.nodup_iff.2 ((List.filter_sublist.map _).nodup h.names)

theorem Meeting.sorted_digests (h : Meeting host env root entries built members stage) :
    ((sortedItems (entries.filter isArchived)).map fun row => host.sha row.1).Nodup := by
  have hnames : ((sortedItems (entries.filter isArchived)).map fun row => row.1).Nodup := by
    refine List.Nodup.of_map lc ?_
    rw [List.map_map]
    exact h.sorted_names
  have hmap := hnames.map_on (f := host.sha) ?_
  · rwa [List.map_map] at hmap
  · intro a ha b hb heq
    obtain ⟨row, hrow, rfl⟩ := List.mem_map.1 ha
    obtain ⟨other, hother, rfl⟩ := List.mem_map.1 hb
    exact h.digests row (mem_archived hrow).1 other (mem_archived hother).1 heq

/-- The members that the reader looks a header up in. -/
theorem Meeting.find_member (h : Meeting host env root entries built members stage) :
    ∀ row ∈ sortedItems (entries.filter isArchived),
      ((sortedItems (entries.filter isArchived)).map (memberOf host.sha)).find?
        (·.member = "f-".toList ++ host.sha row.1) = some (memberOf host.sha row) := by
  intro row hrow
  have hnodup : (((sortedItems (entries.filter isArchived)).map (memberOf host.sha)).map
      (·.member)).Nodup := by
    have hmap := h.sorted_digests.map (List.append_right_injective "f-".toList)
    rw [List.map_map] at hmap ⊢
    exact hmap
  exact Keyed.find?_of_mem hnodup (List.mem_map_of_mem hrow) (decide_eq_true rfl)
    fun member _ hmember => of_decide_eq_true hmember

/-- The archive is its members and zeros, and as long as the reader asks for. -/
theorem Meeting.archive (h : Meeting host env root entries built members stage) :
    ∃ (parts : List Part) (tail : ℕ),
      members ++ close members.length = parts.flatMap Part.bytes ++ nulls tail ∧
      1024 ≤ tail ∧ tail ≤ 11264 ∧
      parts.map (·.row) = (sortedItems (entries.filter isArchived)).map (memberOf host.sha) ∧
      (∀ part ∈ parts,
        part.Fits env ((sortedItems (entries.filter isArchived)).map (memberOf host.sha))) ∧
      (∀ part ∈ parts, ∃ file, root.lookup part.row.name = some file ∧ part.body = file.content) ∧
      (members ++ close members.length).length =
        minimum ((sortedItems (entries.filter isArchived)).map (memberOf host.sha)) +
          (tail - 1024) := by
  obtain ⟨parts, hbytes, hrows, hfits, hfiles⟩ := tarMembers_ok h.sha h.same h.tar
    (fun row hrow => h.sourced row (mem_archived hrow).1)
    (fun row hrow => h.bounded.each row (mem_sorted.1 hrow)) h.find_member
  have hpadding : padding 10240 (members.length + 512 * 2) < 10240 := padding_lt (by decide)
  have hclose : close members.length = nulls (1024 + padding 10240 (members.length + 512 * 2)) := by
    rw [close, nulls_add]
  have hlen := length_parts hfits
  rw [hrows] at hlen
  refine ⟨parts, 1024 + padding 10240 (members.length + 512 * 2), by rw [hclose, ← hbytes],
    by omega, by omega, hrows, hfits, hfiles, ?_⟩
  rw [hclose, List.length_append, length_nulls, ← hlen, ← hbytes]
  omega

/-- What the manifest lists of the archived entries is what the descriptor says. -/
theorem Meeting.described (h : Meeting host env root entries built members stage)
    (hapart : Apart entries) {text : Text} :
    descriptor (parsed built.archive (sortedItems (entries.filter isArchived)))
      (outerRows host entries (members ++ close members.length) text) (memberDigest env) =
      .ok (described host built.archive (entries.filter isArchived)) := by
  obtain ⟨parts, tail, hbytes, hmin, hmax, -, -, -, hlen⟩ := h.archive
  have hperm := List.perm_insertionSort (fun x y : Text × Row => x.1 ≤ y.1)
    (entries.filter isArchived)
  have htotal : ((sortedItems (entries.filter isArchived)).map (·.2.bytes)).sum =
      ((entries.filter isArchived).map (·.2.bytes)).sum := (hperm.map _).sum_eq
  have hcount : (sortedItems (entries.filter isArchived)).length =
      (entries.filter isArchived).length := hperm.length_eq
  have hblocks : tarBytes (entries.filter isArchived) % 512 = 0 := by
    unfold tarBytes
    omega
  have hlength := h.made.length
  have hentered : ∀ row ∈ sortedItems (entries.filter isArchived),
      Entered (outerRows host entries (members ++ close members.length) text) row := by
    intro row hrow
    obtain ⟨hentry, harchived⟩ := mem_archived hrow
    have hsource := h.sourced row hentry
    exact {
      name := hsource.name
      folded := (archived_plain harchived).1
      hash := hsource.hash
      sum := outerRows_lookup h.names hapart
        (mem_outerRows.2 (.inl (List.mem_map.2 ⟨row, hentry, rfl⟩)))
      bytes := h.bounded.each row (mem_sorted.1 hrow) }
  have hdigest : ∀ row ∈ sortedItems (entries.filter isArchived),
      memberDigest env row.1 = .ok (host.sha row.1) := by
    intro row hrow
    simp only [memberDigest, bind_eq_ok, require_eq_ok, pure_eq_ok, h.same]
    exact ⟨(), (hentered row hrow).name, (), h.sha _, trivial⟩
  have hne : sortedItems (entries.filter isArchived) ≠ [] := by
    intro hnil
    rw [hnil] at hcount
    exact h.bounded.some (List.length_eq_zero_iff.1 hcount.symm)
  have hbound := h.bounded.archive
  rw [h.made.archive]
  refine descriptor_eq (h.sha _) ?_ ?_ ⟨?_, ?_⟩ hne ?_ hentered hdigest h.sorted_names
    h.sorted_digests ?_ ?_ ?_
  · exact outerRows_lookup h.names hapart (mem_outerRows.2 (.inr (.inl rfl)))
  · change (members ++ close members.length).length ≤ 536870912
    omega
  · change 1024 ≤ (members ++ close members.length).length
    rw [hlen]
    unfold minimum
    omega
  · change (members ++ close members.length).length % 512 = 0
    omega
  · exact hcount ▸ h.bounded.count
  · exact htotal ▸ h.bounded.total
  · change _ ≤ (members ++ close members.length).length
    omega
  · change (members ++ close members.length).length ≤ _
    omega

/-- The reader accepts what was built just when the names of the two new files are free. -/
theorem Meeting.settings_iff (h : Meeting host env root entries built members stage) :
    settings env stage = .ok value ↔
      Apart entries ∧ value = Bundle.described host built.archive (entries.filter isArchived) := by
  have hcount : entries.length ≤ 1220 := by
    have h1 := h.bounded.assets
    have h2 := h.bounded.count
    omega
  obtain ⟨hsize, hnonempty, hmanifest⟩ :=
    @outer_accepted host root entries (members ++ close members.length)
      ((transport built.archive (entries.filter isArchived)).dumps ++ ['\n'])
      h.sha h.sourced h.names hcount
  have hsums := (h.staged.files _ h.made.sums_mem (by simp)).raw hsize hnonempty
  have htext := (h.staged.files _ h.made.descriptor_mem (by simp)).raw h.made.descriptor (by simp)
  have harchived : ∀ row ∈ entries.filter isArchived, Sourced host root row := fun row hrow =>
    h.sourced row (List.mem_of_mem_filter hrow)
  have hcanonical : (transport built.archive (entries.filter isArchived)).dumps ++ ['\n'] =
      canonicalDescriptor (Bundle.described host built.archive (entries.filter isArchived)) := by
    refine dumps_canonical ?_ rfl rfl (fun row hrow => (harchived row hrow).hash) fun row hrow =>
      nameShape_chars (harchived row hrow).name
    rw [h.made.archive]
    exact h.sha _
  simp only [settings, bind_eq_ok, require_eq_ok, pure_eq_ok, hashed]
  constructor
  · rintro ⟨_, hraw, sums, hsums', text, htext', -, -, json, hjson, value', hvalue, -, -, rfl⟩
    obtain rfl := Except.ok.inj (hsums.symm.trans hraw)
    obtain rfl := Except.ok.inj (htext.symm.trans htext')
    obtain ⟨rfl, hapart⟩ := (hmanifest sums).1 hsums'
    rw [h.json] at hjson
    obtain rfl := Except.ok.inj hjson
    exact ⟨hapart, Except.ok.inj (hvalue.symm.trans (h.described hapart))⟩
  · rintro ⟨hapart, rfl⟩
    refine ⟨_, hsums, _, (hmanifest _).2 ⟨rfl, hapart⟩, _, htext, (), ⟨h.staged.hash, ?_⟩, _, ?_, _,
      h.described hapart, (), hcanonical, rfl⟩
    · rw [h.same]
      exact (outerRows_lookup h.names hapart (mem_outerRows.2 (.inr (.inr rfl)))).symm
    · rw [h.json]
      rfl

/-- What the plan selects is extracted as it was in the source. -/
theorem Meeting.extracts (h : Meeting host env root entries built members stage) {plan : Text}
    {selected : List Member} (hplan : Kept stage "plan.list".toList plan) (hne : plan ≠ [])
    (hselected : selection plan (Bundle.described host built.archive (entries.filter isArchived)) =
      .ok selected) (hfree : ∀ row ∈ selected, stage row.name = none) :
    ∃ stage', extract env (Bundle.described host built.archive (entries.filter isArchived)) stage =
      .ok stage' ∧ ∀ row ∈ selected, ∃ file, root.lookup row.name = some file ∧
        Holds stage' row.name file.content := by
  obtain ⟨parts, tail, hbytes, hmin, hmax, hrows, hfits, hfiles, hlen⟩ := h.archive
  have hkept := h.staged.files _ h.made.archive_mem (by simp)
  have hbound := h.bounded.archive
  have hlength := h.made.length
  have hfilled : members ++ close members.length ≠ [] := by
    intro hnil
    rw [hnil] at hbytes
    have hzero := congrArg List.length hbytes
    simp only [List.length_nil, List.length_append, length_nulls] at hzero
    omega
  have hfits' : (members ++ close members.length).length ≤ 536870912 := by omega
  obtain ⟨archive, harchive, hnode, hcontent⟩ := hkept.regular hfits' hfilled
  have hsmall : plan.length ≤ 1048576 := by
    simp only [selection, bind_eq_ok, require_eq_ok] at hselected
    exact hselected.choose_spec.1
  obtain ⟨node, hnode', -, hplan'⟩ := hplan.regular hsmall hne
  have hperm : (parts.map (·.row)).Perm
      (Bundle.described host built.archive (entries.filter isArchived)).members := by
    rw [hrows]
    rfl
  have hin : ∀ part ∈ parts, ∃ row ∈ sortedItems (entries.filter isArchived),
      part.row = memberOf host.sha row := by
    intro part hpart
    have hmem : part.row ∈ parts.map (·.row) := List.mem_map_of_mem hpart
    rw [hrows] at hmem
    obtain ⟨row, hrow, heq⟩ := List.mem_map.1 hmem
    exact ⟨row, hrow, heq.symm⟩
  have hnames : ((Bundle.described host built.archive (entries.filter isArchived)).members.map
      fun row => lc row.name).Nodup := by
    change (((sortedItems (entries.filter isArchived)).map (memberOf host.sha)).map
      fun row => lc row.name).Nodup
    rw [List.map_map]
    exact h.sorted_names
  have hmembers : ((Bundle.described host built.archive (entries.filter isArchived)).members.map
      (·.member)).Nodup := by
    change (((sortedItems (entries.filter isArchived)).map (memberOf host.sha)).map
      (·.member)).Nodup
    rw [List.map_map]
    have hmap := h.sorted_digests.map (f := fun t => "f-".toList ++ t)
      (fun _ _ heq => List.append_cancel_left heq)
    rwa [List.map_map] at hmap
  have hchosen : ∀ part ∈ parts, part.chosen selected = true ↔ part.row ∈ selected := by
    intro part hpart
    exact chosen_iff hnames (hperm.subset (List.mem_map_of_mem hpart)) (selection_ok hselected).2
  obtain ⟨stage', hextract, hholds⟩ := extract_fits harchive (h.staged.device archive hnode)
    (by rw [hcontent, h.made.archive]; rfl) (by rw [hcontent, h.same, h.made.archive]; rfl) hnode'
    (hplan' ▸ hselected) (hcontent ▸ hbytes) hmin hmax hfits hperm hmembers hnames h.staged.hash
    h.staged.list
    (fun part hpart => by
      obtain ⟨row, hrow, heq⟩ := hin part hpart
      rw [heq]
      exact (archived_plain (mem_archived hrow).2).2)
    (fun part hpart hc => hfree _ ((hchosen part hpart).1 hc))
  refine ⟨stage', hextract, fun row hrow => ?_⟩
  obtain ⟨part, hpart, rfl⟩ :=
    List.mem_map.1 (hperm.symm.subset ((selection_ok hselected).2 row hrow))
  obtain ⟨file, hfile, hbody⟩ := hfiles part hpart
  exact ⟨file, hfile, hbody ▸ hholds part hpart ((hchosen part hpart).2 hrow)⟩

end Router

/-! A bundle of three tools and two dependencies, of which the plan takes one. -/

/-- The 64 hexadecimal digits of a number. -/
def hexText (n : ℕ) : Text :=
  (List.range 64).map fun i => hexDigit (n / 16 ^ (63 - i) % 16)

def dependencyName (n : ℕ) : Text := "apk-".toList ++ hexText n ++ ".apk".toList

/-- The files with the digests of their contents. -/
def bundleFiles : List (Text × Text × Text) :=
  [("install-compact.sh".toList, "#!/bin/sh\n".toList,
      hexText 0xa8076d3d28d21e02012b20eaf7dbf75409a6277134439025f282e368e3305abf),
    ("bundle-transport-model.uc".toList, "'use strict';\n".toList,
      hexText 0xe65f3cca9a4637c34593c5b4dc5698d6368b91ce43f6d26273a70c430a66b71f),
    ("bundle-transport.uc".toList, "import 'fs';\n".toList,
      hexText 0x58f6c7919d989241b191264cd89807ca86383a69f657c3a460f3256b665cacfb),
    (dependencyName 0xd2fb68bd786f6e56556c9ca7abacc0301af06c99fcc7a3d7e82eda87dbe6f921,
      "ADB two\n\n".toList,
      hexText 0xd2fb68bd786f6e56556c9ca7abacc0301af06c99fcc7a3d7e82eda87dbe6f921),
    (dependencyName 0xcbed9e5b3c4df49c1dadbe92bf64764c5f4a640b6943a6257d5b95308ba76ac6,
      "ADB one\n".toList,
      hexText 0xcbed9e5b3c4df49c1dadbe92bf64764c5f4a640b6943a6257d5b95308ba76ac6)]

/-- The digests of their names. -/
def nameDigests : List Text :=
  [hexText 0x55702de2b881abb074f65d360f100cb99e3cc3f6694925eba829d44cd9860209,
    hexText 0xc36cb0f488d7803b7b7222401774327f8d7f3f2c165aaf13c3de0164173a1c89,
    hexText 0xf5d4fcb269966f110ab8dcc1532a606ebfd3ce3067f1ff194e990f14d6d4f8a7,
    hexText 0x6c90a57b001c6069c4bc499f7b69249857a7cc7612d08028a475d27975f6e5e7,
    hexText 0x8c5c4a1cd209f2e207525e0ccd755413aafabda5d296cfc0317755a258f8cbbd]

/-- The digests of the long texts, which their lengths tell apart. -/
def lengthDigests : List (ℕ × Text) :=
  [(541, hexText 0xfe855ab74f3e0979ab40dd39890bca0e933fd9d25b03637a9d90bd38c969f796),
    (10240, hexText 0xb78cec41179438d01c7244e745554bcc12ef64e8cd92acc53258f0ec92538036),
    (481, hexText 0x46c1ddb262fc32088276f2dbe1e20a7f0fb329d5f6d80f8f5866afc26bd698fb),
    (714, hexText 0xd9d7e080b3a87afac99115c0a932c2d59fca5aa3a677b93d7dab4701e8da4fce)]

def knownDigests : List (Text × Text) :=
  (bundleFiles.map fun file => (file.2.1, file.2.2)) ++ (bundleFiles.map (·.1)).zip nameDigests

def sampleSha (t : Text) : Text :=
  ((knownDigests.lookup t).or (lengthDigests.lookup t.length)).getD (List.replicate 64 '0')

def flatSums : Text := bundleFiles.flatMap fun file =>
  (Entry.mk file.1 file.2.2).line ++ ['\n']

def flatBundle : Dir :=
  (sumsName, { content := flatSums }) :: bundleFiles.map fun file =>
  (file.1, { content := file.2.1 })

def sampleHost : Host where
  sha := sampleSha
  tool name := ((flatBundle.lookup name).map (·.content)).getD []
  outputExists := false
  free := 2 ^ 40

def flatEntries : List (Text × Row) :=
  bundleFiles.map fun file => (file.1, ⟨file.2.2, file.2.1.length⟩)

theorem flat_checked :
    checkBundle sampleHost flatBundle (sampleSha flatSums) = .ok flatEntries := by
  decide +kernel

theorem flat_built : (build sampleHost flatBundle (sampleSha flatSums)).map
    (fun built => built.output.map (·.1)) = .ok (archiveName :: descriptorName :: TOOLS ++
      [sumsName]) := by
  unfold build
  rw [flat_checked]
  decide +kernel

def node (content : Text) : Node where
  dev := .value ⟨.value 0, .value 1⟩
  content := content

/-- A stage with the files of a transport and a plan. -/
def fetched (built : Built) (plan : Text) : Stage := fun path =>
  if path = "plan.list".toList then some (node plan) else (built.output.lookup path).map node

/-- The reader of the descriptor that was built from these entries. -/
def readerOf (built : Built) (archived : List (Text × Row)) : Env where
  sha := sampleSha
  json text := if text = (transport built.archive archived).dumps ++ ['\n'] then
    some (parsed built.archive (sortedItems archived)) else none
  fresh _ _ := node []

def firstDependency : Text × Row :=
  (dependencyName 0xcbed9e5b3c4df49c1dadbe92bf64764c5f4a640b6943a6257d5b95308ba76ac6,
    ⟨hexText 0xcbed9e5b3c4df49c1dadbe92bf64764c5f4a640b6943a6257d5b95308ba76ac6, 8⟩)

def flatPlan : Text :=
  "mode ram\nasset ".toList ++ firstDependency.1 ++ ' ' :: firstDependency.2.sha256 ++ " 8\n".toList

theorem node_kept {path content : Text} (h : stage path = some (node content)) :
    Kept stage path content :=
  ⟨node content, h, rfl, rfl, rfl, rfl, (by decide : 0o600 &&& 0o022 = 0)⟩

theorem plan_kept : Kept (fetched built flatPlan) "plan.list".toList flatPlan :=
  node_kept rfl

theorem not_fetched {path : Text} (hplan : path ≠ "plan.list".toList)
    (h : path ∉ built.output.map (·.1)) : fetched built flatPlan path = none := by
  have hnone : built.output.lookup path = none := by
    refine List.lookup_eq_none_iff.2 fun file hfile => ?_
    rw [bne_iff_ne]
    rintro rfl
    exact h (List.mem_map_of_mem hfile)
  rw [fetched, if_neg hplan, hnone]
  rfl

theorem flat_staged
    (h : built.output.map (·.1) = archiveName :: descriptorName :: TOOLS ++ [sumsName]) :
    Staged built (fetched built flatPlan) where
  files := by
    intro file hfile hname
    have hnodup : (built.output.map (·.1)).Nodup := by
      rw [h]
      decide
    have hplan : file.1 ≠ "plan.list".toList := by
      intro heq
      rw [heq] at hname
      revert hname
      decide
    refine node_kept ?_
    rw [fetched, if_neg hplan, Keyed.lookup_of_mem hnodup hfile]
    rfl
  device := by
    intro found hfound
    rw [fetched, if_neg (by decide), Option.map_eq_some_iff] at hfound
    obtain ⟨content, -, rfl⟩ := hfound
    simp [sameIdentity, node]
  hash := not_fetched (by decide) (by rw [h]; decide)
  list := not_fetched (by decide) (by rw [h]; decide)

theorem flat_selection {archive : Row} :
    selection flatPlan (described sampleHost archive (flatEntries.filter isArchived)) =
      .ok [memberOf sampleSha firstDependency] := by
  have h : ∀ a, selection flatPlan (described sampleHost a (flatEntries.filter isArchived)) =
      selection flatPlan (described sampleHost ⟨[], 0⟩ (flatEntries.filter isArchived)) := by
    intro a
    rfl
  rw [h]
  decide +kernel

theorem flat_names : ∀ row ∈ flatEntries, ∀ other ∈ flatEntries,
    sampleSha row.1 = sampleSha other.1 → row.1 = other.1 := by
  decide +kernel

theorem sampleSha_accepts (t : Text) : hashShape.accepts (sampleSha t) = true := by
  have hknown : ∀ row ∈ knownDigests, hashShape.accepts row.2 = true := by decide +kernel
  have hlengths : ∀ row ∈ lengthDigests, hashShape.accepts row.2 = true := by decide +kernel
  unfold sampleSha
  cases h : knownDigests.lookup t with
  | some digest =>
    obtain ⟨l, l', hsplit, -⟩ := List.lookup_eq_some_iff.1 h
    exact hknown (t, digest) (by simp [hsplit])
  | none =>
    cases h' : lengthDigests.lookup t.length with
    | some digest =>
      obtain ⟨l, l', hsplit, -⟩ := List.lookup_eq_some_iff.1 h'
      exact hlengths (t.length, digest) (by simp [hsplit])
    | none => decide +kernel

theorem flat_apart : Apart flatBundle := by
  unfold Apart
  decide +kernel

theorem flat_free
    (h : built.output.map (·.1) = archiveName :: descriptorName :: TOOLS ++ [sumsName]) :
    ∀ row ∈ [memberOf sampleSha firstDependency], fetched built flatPlan row.name = none := by
  intro row hrow
  obtain rfl := List.mem_singleton.1 hrow
  refine not_fetched (by decide +kernel) ?_
  rw [h]
  decide +kernel

/-- A whole run of the two tools on the bundle. -/
theorem flat_round : ∃ built stage', build sampleHost flatBundle (sampleSha flatSums) = .ok built ∧
    Staged built (fetched built flatPlan) ∧
    settings (readerOf built (flatEntries.filter isArchived)) (fetched built flatPlan) =
      .ok (described sampleHost built.archive (flatEntries.filter isArchived)) ∧
    extract (readerOf built (flatEntries.filter isArchived))
      (described sampleHost built.archive (flatEntries.filter isArchived))
      (fetched built flatPlan) =
      .ok stage' := by
  obtain ⟨built, hbuild, houtput⟩ := map_eq_ok.1 flat_built
  obtain ⟨hsourced, hnames, hbounded, hfiles, hrows⟩ := checkBundle_ok flat_checked
  obtain ⟨members, htar, hmade⟩ := build_made flat_checked hbuild
  have hstaged : Staged built (fetched built flatPlan) := flat_staged houtput
  have hmeeting : Meeting sampleHost (readerOf built (flatEntries.filter isArchived)) flatBundle
      flatEntries built members (fetched built flatPlan) :=
    ⟨sampleSha_accepts, rfl, hsourced, hnames, flat_names, hbounded, htar, hmade,
      if_pos rfl, hstaged⟩
  have hsettings := hmeeting.settings_iff.2 ⟨(apart_iff hfiles hrows).1 flat_apart, rfl⟩
  obtain ⟨stage', hextract, -⟩ := hmeeting.extracts plan_kept (by decide) flat_selection
    (flat_free houtput)
  exact ⟨built, stage', hbuild, hstaged, hsettings, hextract⟩

/-- What an extraction that comes to its end has read and written. -/
theorem extract_sound (hvalue : settings env stage = .ok value)
    (h : extract env value stage = .ok stage') :
    ∃ archive plan selected parts tail, stage "native-install.tar".toList = some archive ∧
      stage "plan.list".toList = some plan ∧ selection plan.content value = .ok selected ∧
      Extraction env value stage stage' archive.content selected parts tail := by
  simp only [extract, bind_eq_ok, require_eq_ok, pure_eq_ok, hashed, read_eq_ok] at h
  obtain ⟨archive, harchive, -, hsize, ⟨bytes, rest⟩, hbytes, -, ⟨-, hdigest⟩, planRaw, hplan,
    selected, hselected, p, hp, -, -, -, -, -, hwritten, -, hlist, rfl⟩ := h
  simp only [raw, bind_eq_ok, pure_eq_ok] at hplan
  obtain ⟨plan, hplan, rfl⟩ := hplan
  rw [readAll_eq, readExact_eq_some] at hbytes
  obtain ⟨hjoin, hcount⟩ := hbytes
  have hwhole : bytes = archive.content :=
    List.IsPrefix.eq_of_length ⟨rest, hjoin.symm⟩ hcount
  obtain ⟨parts, tail, hinput, hmin, hmax, hlength, hdone⟩ := extractFrom_ok hp
  dsimp only at hinput
  have hleft : p.input = [] := by
    have hlen := congrArg List.length hinput
    simp only [List.length_append, length_nulls] at hlen
    exact List.eq_nil_of_length_eq_zero (by omega)
  have hperm := hdone.perm rfl
  have hmem : ∀ part ∈ parts, part.row ∈ value.members := fun part hpart =>
    (header_mem (hdone.fits part hpart).head).1
  have hchosen : ∀ part ∈ parts, part.chosen selected = true ↔ part.row ∈ selected :=
    fun part hpart => chosen_iff (settings_members hvalue) (hmem part hpart)
      (selection_ok hselected).2
  have hnames : p.written = (parts.filter (·.chosen selected)).map (·.row.name) := by
    rw [hdone.written, List.nil_append]
  have hholds : ∀ part ∈ parts.filter (·.chosen selected),
      Holds (unpack env stage (parts.filter (·.chosen selected))) part.row.name part.body :=
    unpack_holds hdone.apart
  refine ⟨archive, plan, selected, parts, tail, regularNode_ok harchive, regularNode_ok hplan,
    hselected, ?_, ?_, ⟨hmin, hmax⟩, hperm, hdone.fits, ?_, ?_, ?_⟩
  · rw [← hwhole]
    exact Option.some.inj hdigest
  · rw [hinput, hleft, List.append_nil]
  · intro part hpart hrow
    have hc := (hchosen part hpart).2 hrow
    obtain ⟨node, hnode, hrest⟩ := hholds part (List.mem_filter.2 ⟨hpart, hc⟩)
    rw [← hdone.stage] at hnode
    have hne : part.row.name ≠ listName := by
      intro heq
      rw [heq, hlist] at hnode
      cases hnode
    exact ⟨hdone.free part hpart hc, node, (placed_other hne).trans hnode, hrest⟩
  · refine ⟨p.written, ?_, holds_placed _ _⟩
    have hnodup : p.written.Nodup := hnames ▸ hdone.apart
    refine (hnodup.subperm fun name hname => ?_).perm_of_length_le
      (by rw [List.length_map, hwritten])
    rw [hnames] at hname
    obtain ⟨part, hpart, rfl⟩ := List.mem_map.1 hname
    obtain ⟨hpart, hc⟩ := List.mem_filter.1 hpart
    exact List.mem_map_of_mem ((hchosen part hpart).1 hc)
  · intro path hpath hout
    refine (placed_other hpath).trans ?_
    rw [hdone.stage]
    refine unpack_other fun part hpart heq => hout ?_
    obtain ⟨hpart, hc⟩ := List.mem_filter.1 hpart
    exact heq ▸ List.mem_map_of_mem ((hchosen part hpart).1 hc)

/-- The archive of the run has two members, of which the plan takes one. -/
theorem extract_sound_flat : ∃ built stage' archive parts tail,
    build sampleHost flatBundle (sampleSha flatSums) = .ok built ∧
    Extraction (readerOf built (flatEntries.filter isArchived))
      (described sampleHost built.archive (flatEntries.filter isArchived)) (fetched built flatPlan)
      stage' archive [memberOf sampleSha firstDependency] parts tail ∧ parts.length = 2 := by
  obtain ⟨built, stage', hbuild, -, hsettings, hextract⟩ := flat_round
  obtain ⟨archive, plan, selected, parts, tail, -, hplan, hselected, hdone⟩ :=
    extract_sound hsettings hextract
  obtain rfl : node flatPlan = plan := Option.some.inj hplan
  obtain rfl := Except.ok.inj (flat_selection.symm.trans hselected)
  refine ⟨built, stage', archive.content, parts, tail, hbuild, hdone, ?_⟩
  have hlen := hdone.members.length_eq
  rw [List.length_map] at hlen
  have htwo :
      ((sortedItems (flatEntries.filter isArchived)).map (memberOf sampleSha)).length = 2 := by
    decide +kernel
  exact hlen.trans htwo

/-- A transport that is built is accepted just when no file of the source has, in another case, the
name of one of the two new files; and what a plan then selects is extracted as it was in the
source. -/
theorem transport_round (hsha : ∀ t, hashShape.accepts (host.sha t) = true)
    (hsame : env.sha = host.sha) (hcheck : checkBundle host root expected = .ok entries)
    (hbuild : build host root expected = .ok built)
    (hdigests : ∀ row ∈ entries, ∀ other ∈ entries, host.sha row.1 = host.sha other.1 →
      row.1 = other.1)
    (hjson : env.json ((transport built.archive (entries.filter isArchived)).dumps ++ ['\n']) =
      some (parsed built.archive (sortedItems (entries.filter isArchived))))
    (hstaged : Staged built stage) :
    (∀ value, settings env stage = .ok value ↔
      Apart root ∧ value = described host built.archive (entries.filter isArchived)) ∧
    ∀ plan selected, Kept stage "plan.list".toList plan → plan ≠ [] →
      selection plan (described host built.archive (entries.filter isArchived)) = .ok selected →
      (∀ row ∈ selected, stage row.name = none) →
      ∃ stage', extract env (described host built.archive (entries.filter isArchived)) stage =
        .ok stage' ∧ ∀ row ∈ selected, ∃ file, root.lookup row.name = some file ∧
          Holds stage' row.name file.content := by
  obtain ⟨hsourced, hnames, hbounded, hfiles, hrows⟩ := checkBundle_ok hcheck
  obtain ⟨members, htar, hmade⟩ := build_made hcheck hbuild
  have hmeeting : Meeting host env root entries built members stage :=
    ⟨hsha, hsame, hsourced, hnames, hdigests, hbounded, htar, hmade, hjson, hstaged⟩
  refine ⟨fun value => ?_, fun plan selected hplan hne hselected hfree =>
    hmeeting.extracts hplan hne hselected hfree⟩
  rw [apart_iff hfiles hrows]
  exact hmeeting.settings_iff

/-- The chosen dependency is on the router as it was in the bundle. -/
theorem transport_round_flat : ∃ built stage',
    build sampleHost flatBundle (sampleSha flatSums) = .ok built ∧
    settings (readerOf built (flatEntries.filter isArchived)) (fetched built flatPlan) =
      .ok (described sampleHost built.archive (flatEntries.filter isArchived)) ∧
    extract (readerOf built (flatEntries.filter isArchived))
      (described sampleHost built.archive (flatEntries.filter isArchived))
      (fetched built flatPlan) =
      .ok stage' ∧ Holds stage' firstDependency.1 "ADB one\n".toList := by
  obtain ⟨built, -, hbuild, hstaged, -⟩ := flat_round
  obtain ⟨built', hbuild', houtput⟩ := map_eq_ok.1 flat_built
  obtain rfl : built = built' := Except.ok.inj (hbuild.symm.trans hbuild')
  obtain ⟨hsettings, hextracts⟩ := @transport_round sampleHost flatBundle
    (readerOf built (flatEntries.filter isArchived)) flatEntries (sampleSha flatSums) built
    (fetched built flatPlan) sampleSha_accepts rfl flat_checked hbuild flat_names
    (if_pos rfl) hstaged
  obtain ⟨stage', hextract, hfiles⟩ := hextracts flatPlan _ plan_kept (by decide) flat_selection
    (flat_free houtput)
  obtain ⟨file, hfile, hholds⟩ := hfiles _ (List.mem_singleton.2 rfl)
  have hcontent : (flatBundle.lookup firstDependency.1).map (·.content) =
      some "ADB one\n".toList := by decide +kernel
  have hname : (memberOf sampleSha firstDependency).name = firstDependency.1 := rfl
  rw [hname] at hfile hholds
  rw [hfile] at hcontent
  exact ⟨built, stage', hbuild, (hsettings _).2 ⟨flat_apart, rfl⟩, hextract,
    Option.some.inj hcontent ▸ hholds⟩

end Foxhole.Bundle
