import Foxhole.BootLink

/-! The descriptor that the running system leaves for the next boot. -/
namespace Foxhole.BootLink
open Check Text Address

section Url
variable {origin v value : Text} {least : ℕ}

theorem getLast?_artifactUrl : (Link.artifactUrl origin v).getLast? = some 'k' := by
  unfold Link.artifactUrl
  rw [List.getLast?_append_of_ne_nil _ (by decide)]
  rfl

/-- A URL of an artifact has a path with more than its slash, so both copies take it. -/
theorem boot_url_artifactUrl (h : Link.url (Link.artifactUrl origin v) = true) :
    Boot.url (Link.artifactUrl origin v) = true := by
  have hlast := @getLast?_artifactUrl origin v
  generalize Link.artifactUrl origin v = address at h hlast
  unfold Link.url Boot.url url at *
  simp only [Bool.and_eq_true, decide_eq_true_eq] at h ⊢
  obtain ⟨⟨⟨⟨⟨hfront, hport⟩, hhead⟩, hclass⟩, -⟩, hplain⟩ := h
  refine ⟨⟨⟨⟨⟨hfront, hport⟩, hhead⟩, hclass⟩, ?_⟩, hplain⟩
  have hsuffix := (List.dropWhile_suffix (· ≠ '/')).trans (List.drop_suffix httpsTag.length address)
  generalize (address.drop httpsTag.length).dropWhile (· ≠ '/') = path at hhead hsuffix ⊢
  match path, hhead with
  | [c], hc =>
    obtain ⟨front, rfl⟩ := hsuffix
    simp only [List.head?_cons, Option.some.injEq] at hc
    rw [List.getLast?_append_of_ne_nil _ (by simp), hc] at hlast
    exact absurd hlast (by decide)
  | c :: d :: rest, _ => simp

end Url

section Overlay
variable {value : Descriptor} {overlay : Overlay} {v s : Text} {n : ℤ}

theorem recoveryOverlay_eq_ok : Link.recoveryOverlay value v s n = .ok overlay ↔
    ∃ base origin, value.baseVersion = .value base ∧ value.recoveryOrigin = .value origin ∧
      (version v = true ∧ sha s = true ∧ integer n = true ∧ 1 ≤ n ∧ n ≤ 8388608 ∧ newer v base) ∧
      Link.url (Link.artifactUrl origin v) = true ∧
      overlay = { baseVersion := .value v, baseSha256 := .value s,
                  artifact := .value { url := .value (Link.artifactUrl origin v),
                                       bytes := .value n, sha256 := .value s } } := by
  unfold Link.recoveryOverlay
  split
  · rename_i base origin hbase horigin
    simp only [bind_eq_ok, require_eq_ok, pure_eq_ok, hbase, horigin, Field.value.injEq]
    constructor
    · rintro ⟨-, hchecks, -, hurl, rfl⟩
      exact ⟨base, origin, rfl, rfl, hchecks, hurl, rfl⟩
    · rintro ⟨_, _, rfl, rfl, hchecks, hurl, rfl⟩
      exact ⟨(), hchecks, (), hurl, rfl⟩
  · rename_i hnone
    simp only [reduceCtorEq, false_iff]
    rintro ⟨base, origin, hbase, horigin, -⟩
    exact hnone base origin hbase horigin

/-- The early boot takes the overlays that the running system makes. -/
theorem boot_overlayOk (h : Link.recoveryOverlay value v s n = .ok overlay) :
    Boot.overlayOk { value with overlay := .value overlay } overlay := by
  obtain ⟨base, origin, hbase, horigin, ⟨hv, hs, hn, hone, hmax, hnewer⟩, hurl, rfl⟩ :=
    recoveryOverlay_eq_ok.1 h
  refine ⟨rfl, v, rfl, ⟨base, by simp [hbase], hnewer⟩, _, rfl, rfl, ?_, rfl, ?_, _, rfl,
    boot_url_artifactUrl hurl, origin, by simp [horigin], rfl⟩
  · simpa [isValue] using hs
  · simp [isValue, hn, hone, hmax]

end Overlay

section HandOver
variable {host : Host} {look again later : Link.Look} {fetched : Link.Fetched}
  {candidate : Link.Candidate} {payload : Text} {proof : Link.Proof} {journal : Link.Journal}
  {context : Link.Context} {value old next : Descriptor} {disk disk' : Link.Disk} {cut : Link.Cut}

theorem link_descriptor_eq_ok (h : Link.descriptor value = .ok next) : next = value := by
  simp only [Link.descriptor, bind_eq_ok, pure_eq_ok] at h
  obtain ⟨-, -, -, -, rfl⟩ := h
  rfl

theorem boot_descriptor_succeeds : Succeeds (Boot.descriptor value) ↔
    (baselineOk 1 value ∧ isValue sha value.signerPemSha256 = true) ∧
    (value.overlay = .missing ∨
      ∃ overlay ∈ value.overlay.value?, Boot.overlayOk value overlay) := by
  simp only [Boot.descriptor, succeeds_bind, require_eq_ok]
  constructor
  · rintro ⟨_, hbase, _, hoverlay, -⟩
    exact ⟨hbase, hoverlay⟩
  · rintro ⟨hbase, hoverlay⟩
    exact ⟨(), hbase, (), hoverlay, succeeds_ok⟩

theorem snapshot_eq_ok (h : Link.snapshot host look = .ok context) :
    look.boot = some context.raw ∧ context.raw.length ≤ maximumDescriptor ∧
    host.json context.raw = some context.value ∧ Link.descriptor context.value = .ok context.value ∧
    context.sha256 = host.sha256 context.raw := by
  unfold Link.snapshot at h
  split at h
  · cases h
  · rename_i text hboot
    simp only [bind_eq_ok, require_eq_ok] at h
    obtain ⟨-, hlength, h⟩ := h
    split at h
    · cases h
    · rename_i value hjson
      simp only [bind_eq_ok, require_eq_ok] at h
      obtain ⟨-, ⟨value', hvalue⟩, -, -, -, -, -, -, h⟩ := h
      obtain rfl := link_descriptor_eq_ok hvalue
      split at h
      · cases h
      · simp only [bind_eq_ok, require_eq_ok, pure_eq_ok] at h
        obtain ⟨-, -, -, -, rfl⟩ := h
        exact ⟨hboot, hlength, hjson, hvalue, rfl⟩

theorem prove_eq_ok (h : Link.prove host look again fetched candidate payload = .ok proof) :
    ∃ context, Link.snapshot host look = .ok context ∧ proof.descriptorSha256 = context.sha256 ∧
      ∃ base ∈ (Link.effective context.value).1.value?, newer candidate.version base := by
  simp only [Link.prove, bind_eq_ok, require_eq_ok, pure_eq_ok] at h
  obtain ⟨context, hcontext, -, -, -, ⟨-, hnewer⟩, overlay, -, -, -, -, -, rfl⟩ := h
  exact ⟨context, hcontext, rfl, hnewer⟩

theorem proofMatches_eq_ok {u : Unit}
    (h : Link.proofMatches proof candidate payload context = .ok u) :
    proof.descriptorSha256 = context.sha256 ∧
    Link.recoveryOverlay context.value candidate.version candidate.sha256 candidate.bytes =
      .ok proof.overlay := by
  simp only [Link.proofMatches, bind_eq_ok, require_eq_ok] at h
  obtain ⟨-, ⟨hdigest, -⟩, overlay, hoverlay, hsame⟩ := h
  exact ⟨hdigest, hsame ▸ hoverlay⟩

theorem journal_eq_ok (h : Link.journal host look proof candidate payload = .ok journal) :
    ∃ context, Link.snapshot host look = .ok context ∧
      proof.descriptorSha256 = context.sha256 ∧
      Link.recoveryOverlay context.value candidate.version candidate.sha256 candidate.bytes =
        .ok proof.overlay ∧
      Link.descriptor { context.value with overlay := .value proof.overlay } =
        .ok { context.value with overlay := .value proof.overlay } ∧
      journal.oldRaw = context.raw ∧ journal.oldSha256 = context.sha256 ∧
      journal.newRaw = host.print { context.value with overlay := .value proof.overlay } ∧
      journal.newSha256 = host.sha256 journal.newRaw ∧
      journal.newRaw.length ≤ maximumDescriptor := by
  simp only [Link.journal, bind_eq_ok, require_eq_ok, pure_eq_ok] at h
  obtain ⟨context, hcontext, -, -, _, hproof, next, hnext, -, hlength, rfl⟩ := h
  obtain ⟨hdigest, hoverlay⟩ := proofMatches_eq_ok hproof
  have hsame := link_descriptor_eq_ok hnext
  rw [hsame] at hnext hlength
  exact ⟨context, hcontext, hdigest, hoverlay, hnext, rfl, rfl, by rw [hsame], rfl,
    by rw [hsame]; exact hlength⟩

/-! The journal on the disk. -/

/-- boot.json is the old text or the new one. -/
def Either (journal : Link.Journal) (disk : Link.Disk) : Prop :=
  disk.boot = some journal.oldRaw ∨ disk.boot = some journal.newRaw

theorem Either.writeUntil {raw : Text} (h : Either journal disk)
    (hraw : raw = journal.oldRaw ∨ raw = journal.newRaw) :
    Either journal (Link.writeUntil raw disk cut) := by
  cases cut with
  | before => exact h
  | during written => exact h
  | renamed => exact hraw.imp (congrArg some) (congrArg some)

theorem commitUntil_eq_ok (h : Link.commitUntil host journal disk cut = .ok disk') :
    Link.journalValid host journal = .ok () ∧ Either journal disk ∧
    disk.bankIdentity = some journal.bankIdentity ∧
    disk' = if disk.boot = some journal.newRaw then disk
      else Link.writeUntil journal.newRaw disk cut := by
  simp only [Link.commitUntil, bind_eq_ok, require_eq_ok, pure_eq_ok] at h
  obtain ⟨_, hvalid, -, ⟨hboot, hbank⟩, rfl⟩ := h
  exact ⟨hvalid, hboot, hbank, rfl⟩

/-- A commit that has been made is made again without a change. -/
theorem commit_commit (h : Link.commit host journal disk = .ok disk') :
    Link.commit host journal disk' = .ok disk' := by
  simp only [Link.commit, bind_eq_ok, require_eq_ok, pure_eq_ok] at h
  obtain ⟨written, hwritten, -, hnew, rfl⟩ := h
  obtain ⟨hvalid, -, hbank, hdisk⟩ := commitUntil_eq_ok hwritten
  have hbank' : written.bankIdentity = some journal.bankIdentity := by
    rw [hdisk]
    split <;> exact hbank
  simp only [Link.commit, Link.commitUntil, bind_eq_ok, require_eq_ok, pure_eq_ok]
  exact ⟨written, ⟨(), hvalid, (), ⟨Or.inr hnew, hbank'⟩, if_pos hnew⟩, (), hnew, rfl⟩

/-- Wherever a commit stops, boot.json is one of the two texts. -/
theorem Either.commitUntil (h : Either journal disk) :
    Either journal ((Link.commitUntil host journal disk cut).toOption.getD disk) := by
  cases hcommit : Link.commitUntil host journal disk cut with
  | error e => exact h
  | ok disk' =>
    obtain ⟨-, -, -, rfl⟩ := commitUntil_eq_ok hcommit
    change Either journal (if _ then _ else _)
    split
    · exact h
    · exact h.writeUntil (Or.inr rfl)

theorem Either.restore (h : Either journal disk)
    (hvalid : Link.journalValid host journal = .ok ()) :
    ∃ restored, Link.restore host journal disk = .ok restored ∧
      restored.boot = some journal.oldRaw := by
  have hrestored : (if disk.boot = some journal.oldRaw then disk
      else Link.writeUntil journal.oldRaw disk .renamed).boot = some journal.oldRaw := by
    split
    · assumption
    · rfl
  refine ⟨_, ?_, hrestored⟩
  simp only [Link.restore, Link.restoreUntil, bind_eq_ok, require_eq_ok, pure_eq_ok]
  exact ⟨_, ⟨(), hvalid, (), h, rfl⟩, (), hrestored, rfl⟩

/-- The descriptor of a journal is read back, and is newer than the one before it. -/
theorem journalValid_of_journal
    (hprint : ∀ v, (host.print v).length ≤ maximumDescriptor → host.json (host.print v) = some v)
    (hdigest : ∀ a b, look.boot = some a → later.boot = some b → host.sha256 a = host.sha256 b →
      a = b)
    (hproved : Link.prove host look again fetched candidate payload = .ok proof)
    (hjournal : Link.journal host later proof candidate payload = .ok journal) :
    later.boot = some journal.oldRaw ∧ ∃ old, host.json journal.oldRaw = some old ∧
      host.json journal.newRaw = some { old with overlay := .value proof.overlay } ∧
      Link.recoveryOverlay old candidate.version candidate.sha256 candidate.bytes =
        .ok proof.overlay ∧
      (∃ base ∈ (Link.effective old).1.value?, newer candidate.version base) ∧
      Link.journalValid host journal = .ok () := by
  obtain ⟨first, hfirst, hproof, base, hbase, hnewer⟩ := prove_eq_ok hproved
  obtain ⟨context, hcontext, hproof', hoverlay, hnext, hold, holdSha, hnew, hnewSha, hlength⟩ :=
    journal_eq_ok hjournal
  obtain ⟨hboot, -, hjson, -, hsha⟩ := snapshot_eq_ok hfirst
  obtain ⟨hboot', hlength', hjson', hdescriptor, hsha'⟩ := snapshot_eq_ok hcontext
  -- the digest in the proof ties the two looks together
  have hraw : first.raw = context.raw :=
    hdigest _ _ hboot hboot' (hsha.symm.trans (hproof.symm.trans (hproof'.trans hsha')))
  have hvalue : first.value = context.value := by
    rw [hraw, hjson'] at hjson
    exact (Option.some.inj hjson).symm
  rw [hvalue] at hbase
  have hread : host.json journal.newRaw =
      some { context.value with overlay := .value proof.overlay } := by
    rw [hnew] at hlength ⊢
    exact hprint _ hlength
  refine ⟨hold ▸ hboot', context.value, hold ▸ hjson', hread, hoverlay, ⟨base, hbase, hnewer⟩, ?_⟩
  have hversion : proof.overlay.baseVersion = .value candidate.version := by
    obtain ⟨_, _, -, -, -, -, hmade⟩ := recoveryOverlay_eq_ok.1 hoverlay
    rw [hmade]
  simp only [Link.journalValid, bind_eq_ok, require_eq_ok]
  refine ⟨(), ⟨hold ▸ hlength', hlength, by rw [hold, holdSha, hsha'], hnewSha.symm⟩,
    context.value, ?_, { context.value with overlay := .value proof.overlay }, ?_, rfl,
    proof.overlay, rfl, candidate.version, ?_, base, hbase, hnewer⟩
  · rw [Link.readDescriptor, hold, hjson']
    exact hdescriptor
  · rw [Link.readDescriptor, hread]
    exact hnext
  · rw [hversion]
    rfl

/-- Where both parsers take boot.json, the early boot takes what a journal puts in its place: its
base is the candidate and newer than the one before. A commit is idempotent, and wherever it was
interrupted the journal brings the old text back. -/
theorem hand_over
    (hprint : ∀ v, (host.print v).length ≤ maximumDescriptor → host.json (host.print v) = some v)
    (hdigest : ∀ a b, look.boot = some a → later.boot = some b → host.sha256 a = host.sha256 b →
      a = b)
    (hproved : Link.prove host look again fetched candidate payload = .ok proof)
    (hjournal : Link.journal host later proof candidate payload = .ok journal)
    (hboth : ∀ raw value, later.boot = some raw → host.json raw = some value →
      Succeeds (Link.descriptor value) ∧ Succeeds (Boot.descriptor value)) :
    later.boot = some journal.oldRaw ∧
    (∃ old next, host.json journal.oldRaw = some old ∧ host.json journal.newRaw = some next ∧
      Succeeds (Boot.descriptor next) ∧
      Link.effective next = (.value candidate.version, .value candidate.sha256) ∧
      ∃ base ∈ (Link.effective old).1.value?, newer candidate.version base) ∧
    (∀ disk disk', Link.commit host journal disk = .ok disk' →
      Link.commit host journal disk' = .ok disk') ∧
    ∀ disk cut, Either journal disk → ∃ restored,
      Link.restore host journal ((Link.commitUntil host journal disk cut).toOption.getD disk) =
        .ok restored ∧ restored.boot = some journal.oldRaw := by
  obtain ⟨hboot, old, hold, hnext, hoverlay, hnewer, hvalid⟩ :=
    journalValid_of_journal hprint hdigest hproved hjournal
  obtain ⟨⟨hbase, hsigner⟩, -⟩ := boot_descriptor_succeeds.1 (hboth _ _ hboot hold).2
  refine ⟨hboot, ⟨old, _, hold, hnext, ?_, ?_, hnewer⟩, fun disk disk' h => commit_commit h,
    fun disk cut h => h.commitUntil.restore hvalid⟩
  · exact boot_descriptor_succeeds.2 ⟨⟨hbase, hsigner⟩, Or.inr ⟨_, rfl, boot_overlayOk hoverlay⟩⟩
  · obtain ⟨_, _, -, -, -, -, hmade⟩ := recoveryOverlay_eq_ok.1 hoverlay
    simp only [Link.effective, hmade]

end HandOver
/-! A router that goes from release 1 of its base to release 2. -/

/-- JSON, with `^` for quotes and round brackets for the braces. -/
def jsonText (pieces : List String) : Text :=
  pieces.flatMap fun piece => piece.toList.map fun c =>
    if c = '^' then Char.ofNat 34 else if c = '(' then Char.ofNat 123
    else if c = ')' then Char.ofNat 125 else c

def firstBoot : Text := jsonText
  ["(^schema^:1,^kind^:^foxhole-", "ram-bootstrap-v1^,^artifact^", ":(^url^:^https://example.tes",
    "t/bank.apk^,^bytes^:11,^sha2", "56^:^6ec50ffd7bc7f4d76cc81c6", "996945a8449f7c64c78fe7e5da8f",
    "8d799c2e1bcda^),^version^:^1", ".0.2-r1^,^baseVersion^:^1.0.", "2-r1^,^arch^:^aarch64_cortex",
    "-a53^,^target^:^mediatek/fil", "ogic^,^osRelease^:^25.12.5^,", "^baseSha256^:^aaaaaaaaaaaaaa",
    "aaaaaaaaaaaaaaaaaaaaaaaaaaaa", "aaaaaaaaaaaaaaaaaaaaaa^,^sig", "nerPemSha256^:^fa220a28fd866",
    "2fc5f617f46594bafe2415b4f605", "136570dc3c446caeb7d1ef1^,^ca", "FileSha256^:null,^recoveryOr",
    "igin^:^https://example.test/", "recovery/^)"]

def secondBoot : Text := jsonText
  ["( ^schema^: 1, ^kind^: ^foxh", "ole-ram-bootstrap-v1^, ^arti", "fact^: ( ^url^: ^https://exa",
    "mple.test/bank.apk^, ^bytes^", ": 11, ^sha256^: ^6ec50ffd7bc", "7f4d76cc81c6996945a8449f7c64",
    "c78fe7e5da8f8d799c2e1bcda^ )", ", ^version^: ^1.0.2-r1^, ^ba", "seVersion^: ^1.0.2-r1^, ^arc",
    "h^: ^aarch64_cortex-a53^, ^t", "arget^: ^mediatek/filogic^, ", "^osRelease^: ^25.12.5^, ^bas",
    "eSha256^: ^aaaaaaaaaaaaaaaaa", "aaaaaaaaaaaaaaaaaaaaaaaaaaaa", "aaaaaaaaaaaaaaaaaaa^, ^signe",
    "rPemSha256^: ^fa220a28fd8662", "fc5f617f46594bafe2415b4f6051", "36570dc3c446caeb7d1ef1^, ^ca",
    "FileSha256^: null, ^recovery", "Origin^: ^https://example.te", "st/recovery/^, ^overlay^: ( ",
    "^baseVersion^: ^1.0.2-r2^, ^", "baseSha256^: ^b84af9924a115a", "a78cdc87d315c3796e8f2eeb1d6b",
    "0699d6bbab9e46af2a381e^, ^ar", "tifact^: ( ^url^: ^https://e", "xample.test/recovery/foxhole",
    "-openwrt-client-1.0.2-r2.apk", "^, ^bytes^: 16, ^sha256^: ^b", "84af9924a115aa78cdc87d315c37",
    "96e8f2eeb1d6b0699d6bbab9e46a", "f2a381e^ ) ) )"]

def bankDigest : Text := "6ec50ffd7bc7f4d76cc81c6996945a8449f7c64c78fe7e5da8f8d799c2e1bcda".toList
def baseDigest : Text := "b84af9924a115aa78cdc87d315c3796e8f2eeb1d6b0699d6bbab9e46af2a381e".toList

def firstDescriptor : Descriptor where
  schema := .value 1
  kind := .value "foxhole-ram-bootstrap-v1".toList
  artifact := .value
    { url := .value "https://example.test/bank.apk".toList
      bytes := .value 11
      sha256 := .value bankDigest }
  version := .value "1.0.2-r1".toList
  baseVersion := .value "1.0.2-r1".toList
  arch := .value "aarch64_cortex-a53".toList
  target := .value "mediatek/filogic".toList
  osRelease := .value "25.12.5".toList
  baseSha256 := .value (List.replicate 64 'a')
  signerPemSha256 := .value Link.signerSha256
  caFileSha256 := .missing
  recoveryOrigin := .value "https://example.test/recovery/".toList
  overlay := .missing

def secondOverlay : Overlay where
  baseVersion := .value "1.0.2-r2".toList
  baseSha256 := .value baseDigest
  artifact := .value
    { url := .value "https://example.test/recovery/foxhole-openwrt-client-1.0.2-r2.apk".toList
      bytes := .value 16
      sha256 := .value baseDigest }

def secondDescriptor : Descriptor := { firstDescriptor with overlay := .value secondOverlay }

def signerPem : Text :=
  ["-----BEGIN PUBLIC KEY-----\n", "MFkwEwYHKoZIzj0CAQYIKoZIzj0DAQcD",
    "QgAEau/7pL6Nq/RNOLjspQ+ASjkXUVHY\n", "VGEroBFL3CEXajTo58FwYZFqH3Jl5zl1",
    "MCehAAu/GezpQTHw/J/ccg+t7w==\n", "-----END PUBLIC KEY-----\n"].flatMap String.toList

def baseApk : Text := "signed-next-base".toList

/-- JSON texts and SHA-256 digests of the texts above. -/
def tableHost : Host where
  json := fun text =>
    if text = firstBoot then some firstDescriptor
    else if text = secondBoot then some secondDescriptor else none
  print := fun value =>
    if value = secondDescriptor then secondBoot else List.replicate (maximumDescriptor + 1) ' '
  sha256 := fun text =>
    if text = firstBoot then
      "0493e7f9078492425cb35337d5094ba28823980a67462b74b50ce8020a704423".toList
    else if text = secondBoot then
      "20791e06d7d1eec530bd35158988738b35f10b4bfe5eae1bd0623b53305d926c".toList
    else if text = signerPem then Link.signerSha256
    else if text = baseApk then baseDigest
    else []

def firstLook : Link.Look where
  boot := some firstBoot
  owned := true
  signer := some signerPem
  ca := none
  bank := some { regular := true, size := 11, identity := ['b'], hashed := some bankDigest }
  marker := some
    { schema := .value 1
      phase := .value "active".toList
      storage := .value "RAM".toList
      version := .value "1.0.2-r1".toList
      baseSha256 := .value (List.replicate 64 'a')
      bankVersion := .missing
      bankBaseVersion := .missing
      bankBaseSha256 := .missing }

def nextBase : Link.Candidate where
  version := "1.0.2-r2".toList
  sha256 := baseDigest
  bytes := 16

/-! The texts of the descriptors are long: they are looked up by name and not compared. -/

theorem table_json (text : Text) : tableHost.json text =
    if text = firstBoot then some firstDescriptor
    else if text = secondBoot then some secondDescriptor else none := rfl

theorem table_print (value : Descriptor) : tableHost.print value =
    if value = secondDescriptor then secondBoot
    else List.replicate (maximumDescriptor + 1) ' ' := rfl

theorem table_sha256 (text : Text) : tableHost.sha256 text =
    if text = firstBoot then
      "0493e7f9078492425cb35337d5094ba28823980a67462b74b50ce8020a704423".toList
    else if text = secondBoot then
      "20791e06d7d1eec530bd35158988738b35f10b4bfe5eae1bd0623b53305d926c".toList
    else if text = signerPem then Link.signerSha256
    else if text = baseApk then baseDigest
    else [] := rfl

theorem secondBoot_ne : secondBoot ≠ firstBoot := by decide +kernel

theorem second_printed : tableHost.print secondDescriptor = secondBoot := by
  rw [table_print, if_pos rfl]

theorem table_second :
    tableHost.json (tableHost.print secondDescriptor) = some secondDescriptor := by
  rw [second_printed, table_json, if_neg secondBoot_ne, if_pos rfl]

theorem tableHost_print (v : Descriptor) (h : (tableHost.print v).length ≤ maximumDescriptor) :
    tableHost.json (tableHost.print v) = some v := by
  by_cases hv : v = secondDescriptor
  · rw [hv]
    exact table_second
  · rw [table_print, if_neg hv, List.length_replicate] at h
    exact absurd h (Nat.not_succ_le_self _)

theorem firstLook_boot : firstLook.boot = some firstBoot := rfl

theorem table_first : tableHost.json firstBoot = some firstDescriptor := by
  rw [table_json, if_pos rfl]

theorem firstDescriptor_both : Succeeds (Link.descriptor firstDescriptor) ∧
    Succeeds (Boot.descriptor firstDescriptor) := by
  unfold firstDescriptor bankDigest Link.signerSha256
  -- the literals as lists of characters, so that the check need not decode them
  iterate 9 rw [String.toList_ofList]
  decide +kernel

def fetchedBase : Link.Fetched where
  clean := true
  code := 0
  stdout := some baseApk
  stderr := some []

def payloadDigest : Text := List.replicate 64 'c'

def handedOver : Checked Link.Journal := do
  let proof ← Link.prove tableHost firstLook firstLook fetchedBase nextBase payloadDigest
  Link.journal tableHost firstLook proof nextBase payloadDigest

theorem signer_digest : tableHost.sha256 signerPem = Link.signerSha256 := by
  have hfirst : signerPem ≠ firstBoot := by decide +kernel
  have hsecond : signerPem ≠ secondBoot := by decide +kernel
  rw [table_sha256, if_neg hfirst, if_neg hsecond, if_pos rfl]

theorem base_digest : tableHost.sha256 baseApk = baseDigest := by
  have hfirst : baseApk ≠ firstBoot := by decide +kernel
  have hsecond : baseApk ≠ secondBoot := by decide +kernel
  have hsigner : baseApk ≠ signerPem := by decide +kernel
  rw [table_sha256, if_neg hfirst, if_neg hsecond, if_neg hsigner, if_pos rfl]

theorem jsonText_le {n : ℕ} {pieces : List String} (h : ∀ piece ∈ pieces, piece.length ≤ n) :
    (jsonText pieces).length ≤ pieces.length * n := by
  induction pieces with
  | nil => exact Nat.zero_le _
  | cons piece pieces ih =>
    have hhead := h piece List.mem_cons_self
    have htail := ih fun other ho => h other (List.mem_cons_of_mem _ ho)
    rw [jsonText] at htail ⊢
    rw [List.flatMap_cons, List.length_append, List.length_map, String.length_toList,
      List.length_cons, Nat.succ_mul]
    omega

theorem firstBoot_le : firstBoot.length ≤ maximumDescriptor := by
  refine (jsonText_le (n := 28) ?_).trans (by decide)
  simp only [List.forall_mem_cons]
  iterate 20 rw [String.length_ofList]
  decide +kernel

theorem secondBoot_le : secondBoot.length ≤ maximumDescriptor := by
  refine (jsonText_le (n := 28) ?_).trans (by decide)
  simp only [List.forall_mem_cons]
  iterate 32 rw [String.length_ofList]
  decide +kernel

def firstContext : Link.Context where
  raw := firstBoot
  sha256 := tableHost.sha256 firstBoot
  value := firstDescriptor
  bankIdentity := ['b']

def firstBank : Link.Bank where
  regular := true
  size := 11
  identity := ['b']
  hashed := some bankDigest

def bankArtifact : Artifact where
  url := .value "https://example.test/bank.apk".toList
  bytes := .value 11
  sha256 := .value bankDigest

theorem snapshot_first : Link.snapshot tableHost firstLook = .ok firstContext := by
  have hsigner : Link.digestOf tableHost firstLook.signer = firstDescriptor.signerPemSha256 :=
    congrArg Field.value signer_digest
  have hbank : firstLook.bank = some firstBank := rfl
  have hartifact : firstDescriptor.artifact.value? = some bankArtifact := rfl
  have hplace : firstBank.regular = true ∧
      ∃ a ∈ firstDescriptor.artifact.value?, a.bytes = .value firstBank.size :=
    ⟨rfl, bankArtifact, hartifact, rfl⟩
  have hdigest : ∃ a ∈ firstDescriptor.artifact.value?,
      Field.ofOption firstBank.hashed = a.sha256 :=
    ⟨bankArtifact, hartifact, rfl⟩
  have howned : firstLook.owned = true := rfl
  have hca : firstDescriptor.caFileSha256 ≠ .missing →
      Link.digestOf tableHost firstLook.ca = firstDescriptor.caFileSha256 := fun h => absurd rfl h
  simp only [Link.snapshot, firstLook_boot, table_first]
  refine bind_eq_ok.2 ⟨(), require_eq_ok.2 firstBoot_le, ?_⟩
  refine bind_eq_ok.2 ⟨(), require_eq_ok.2 firstDescriptor_both.1, ?_⟩
  refine bind_eq_ok.2 ⟨(), require_eq_ok.2 howned, bind_eq_ok.2 ⟨(), require_eq_ok.2 hsigner, ?_⟩⟩
  refine bind_eq_ok.2 ⟨(), require_eq_ok.2 hca, ?_⟩
  rw [hbank]
  refine bind_eq_ok.2 ⟨(), require_eq_ok.2 hplace, bind_eq_ok.2 ⟨(), require_eq_ok.2 hdigest, ?_⟩⟩
  exact pure_eq_ok.2 rfl

theorem current_first : Link.currentMatches firstLook firstContext = .ok () := by
  have hmarker : Link.currentMatches firstLook firstContext =
      Link.currentMatches firstLook { firstContext with raw := [], sha256 := [] } := rfl
  rw [hmarker]
  decide

theorem overlay_second : Link.recoveryOverlay firstDescriptor nextBase.version nextBase.sha256
    nextBase.bytes = .ok secondOverlay := by
  unfold firstDescriptor nextBase secondOverlay bankDigest baseDigest Link.signerSha256
  iterate 12 rw [String.toList_ofList]
  decide +kernel

theorem next_newer : BootLink.sha payloadDigest = true ∧
    ∃ base ∈ (Link.effective firstDescriptor).1.value?, newer nextBase.version base := by
  decide

def firstProof : Link.Proof where
  descriptorSha256 := firstContext.sha256
  bankSha256 := Link.bankSha256 firstContext.value
  bankIdentity := firstContext.bankIdentity
  baselineBaseVersion := firstContext.value.baseVersion
  baselineBaseSha256 := firstContext.value.baseSha256
  candidatePayloadSha256 := payloadDigest
  overlay := secondOverlay

theorem proved_first : Link.prove tableHost firstLook firstLook fetchedBase nextBase payloadDigest =
    .ok firstProof := by
  have hquiet : Link.complained [] = false := by decide
  have hfetched : fetchedBase.clean = true ∧ fetchedBase.code = 0 ∧
      (∃ stderr ∈ fetchedBase.stderr, Link.complained stderr = false) ∧
      ∃ stdout ∈ fetchedBase.stdout, (stdout.length : ℤ) = nextBase.bytes ∧
        tableHost.sha256 stdout = nextBase.sha256 :=
    ⟨rfl, rfl, ⟨[], rfl, hquiet⟩, baseApk, rfl, by decide, base_digest⟩
  refine bind_eq_ok.2 ⟨_, snapshot_first, bind_eq_ok.2 ⟨_, current_first, ?_⟩⟩
  refine bind_eq_ok.2 ⟨(), require_eq_ok.2 next_newer, bind_eq_ok.2 ⟨_, overlay_second, ?_⟩⟩
  refine bind_eq_ok.2 ⟨(), require_eq_ok.2 hfetched, ?_⟩
  exact bind_eq_ok.2 ⟨(), require_eq_ok.2 ⟨firstLook_boot, rfl⟩, rfl⟩

theorem secondDescriptor_ok : Link.descriptor secondDescriptor = .ok secondDescriptor := by
  obtain ⟨_, hfirst⟩ := firstDescriptor_both.1
  simp only [Link.descriptor, bind_eq_ok, require_eq_ok] at hfirst
  obtain ⟨-, hbase, -⟩ := hfirst
  have hmade : Link.recoveryOverlay secondDescriptor nextBase.version nextBase.sha256
      nextBase.bytes = .ok secondOverlay := overlay_second
  refine bind_eq_ok.2 ⟨(), require_eq_ok.2 hbase, bind_eq_ok.2 ⟨(), ?_, rfl⟩⟩
  refine bind_eq_ok.2 ⟨(), require_eq_ok.2 ⟨rfl, rfl⟩, bind_eq_ok.2 ⟨_, hmade, ?_⟩⟩
  exact require_eq_ok.2 rfl

theorem handedOver_succeeds : Succeeds handedOver := by
  refine succeeds_bind.2 ⟨_, proved_first, succeeds_bind.2 ⟨_, snapshot_first, ?_⟩⟩
  refine succeeds_bind.2 ⟨_, current_first, succeeds_bind.2 ⟨(), ?_, ?_⟩⟩
  · have hdigest : firstProof.descriptorSha256 = firstContext.sha256 := by rw [firstProof]
    refine bind_eq_ok.2 ⟨(), require_eq_ok.2 ⟨hdigest, rfl, rfl, rfl, rfl, rfl⟩, ?_⟩
    exact bind_eq_ok.2 ⟨_, overlay_second, require_eq_ok.2 rfl⟩
  · refine succeeds_bind.2 ⟨secondDescriptor, secondDescriptor_ok, ?_⟩
    have hle : (tableHost.print secondDescriptor).length ≤ maximumDescriptor := by
      rw [second_printed]
      exact secondBoot_le
    exact succeeds_bind.2 ⟨(), require_eq_ok.2 hle, succeeds_ok⟩

theorem firstLook_both (raw : Text) (value : Descriptor) (hraw : firstLook.boot = some raw)
    (hvalue : tableHost.json raw = some value) :
    Succeeds (Link.descriptor value) ∧ Succeeds (Boot.descriptor value) := by
  rw [firstLook_boot, Option.some.injEq] at hraw
  rw [← hraw, table_first, Option.some.injEq] at hvalue
  rw [← hvalue]
  exact firstDescriptor_both

/-- The tests of ram-bootstrap-link: release 2 follows release 1. -/
theorem handed_over : ∃ journal, handedOver = .ok journal ∧
    ∃ next, tableHost.json journal.newRaw = some next ∧ Succeeds (Boot.descriptor next) := by
  obtain ⟨journal, hboth⟩ := handedOver_succeeds
  obtain ⟨proof, hproved, hjournal⟩ := bind_eq_ok.1 hboth
  have hover := hand_over tableHost_print (fun a b ha hb _ => Option.some.inj (ha.symm.trans hb))
    hproved hjournal firstLook_both
  obtain ⟨old, next, -, hnext, haccepted, -⟩ := hover.2.1
  exact ⟨journal, hboth, next, hnext, haccepted⟩

end Foxhole.BootLink
