import Foxhole.EngineCommit
import Mathlib.Data.List.Destutter
import Mathlib.Data.List.ReduceOption

/-! The files of a package before it is installed: `layout` of engine-package-layout.uc for an
engine, `base_layout` of update-model.uc and of ram-bootstrap-model.uc for the client itself. -/
namespace Foxhole.PackageLayout
open Check Text
open Engine (Entry)

/-- The codes the sources die with, and the exception of the interpreter itself. -/
inductive Failure where
  | enginePackageVerificationFailed | updatePackageVerificationFailed
  | ramBootstrapValidationFailed | notAnObject
deriving DecidableEq

/-- A member of which only the type and the length are read. `falsy` is false, 0 or the empty
text, `number` a number or true. -/
inductive Size where
  | null | falsy | array (n : ℕ) | object (n : ℕ) | text | number
deriving DecidableEq

/-- `length(x || [])` -/
def Size.filled : Size → Bool
  | .array n => n ≠ 0
  | .object n => n ≠ 0
  | .text => true
  | _ => false

/-- `x == null`, or an array without an item. -/
def Size.bare : Size → Bool
  | .null => true
  | .array n => n = 0
  | _ => false

/-- A member that is of the type `α`, or else one that counts as true or as false. -/
inductive Member (α : Type) where
  | null | falsy | truthy | value (a : α)
deriving DecidableEq

/-- `x || {}` and `x || []` where these are of the type. -/
def Member.orElse {α : Type} (empty : α) : Member α → Option α
  | .null => some empty
  | .falsy => some empty
  | .truthy => none
  | .value a => some a

structure Acl where
  keys : ℕ
  mode : Field (ℤ ⊕ Text)
  user : Field Text
  group : Field Text
  xattrs : Size
deriving DecidableEq

/-- `name` is what `+` appends of it, `size` and `hash` are read by `base_layout` alone. -/
structure File where
  name : Text
  target : Field Text
  acl : Field Acl
  size : Field ℤ
  hash : Field Text
deriving DecidableEq

/-- A missing `name` is null or false. An item that is no object is `none`. -/
structure Folder where
  keys : List Text
  name : Field Text
  acl : Field Acl
  files : Member (List (Option File))
  unnamed : "name".toList ∉ keys → name = .missing
  unfiled : "files".toList ∉ keys → files = .null
deriving DecidableEq

/-- `installedSize` is what a comparison with a number takes it for. -/
structure Info where
  name : Field Text
  version : Field Text
  arch : Field Text
  installedSize : Field ℤ
  provides : Member (List (Option Text))
  replaces : Size
  installIf : Size
  recommends : Size
deriving DecidableEq

/-- What `adbdump` prints of a package. `scripts` are its keys. -/
structure Document where
  info : Option Info
  scripts : Member (List Text)
  triggers : Size
  paths : Field (List (Option Folder))
deriving DecidableEq

def slash : Text := ['/']

def root : List Text := ["root".toList, ['0']]

def owned (owner : Field Text) : Bool := owner.value?.any (· ∈ root)

/-- `split(path, '/')` -/
def parts : Text → List Text
  | [] => [[]]
  | c :: rest => if c = '/' then [] :: parts rest else (parts rest).modifyHead (c :: ·)

/-- The folder of a file and its name make its path. -/
def pathOf (folder file : Text) : Text := folder ++ '/' :: file

/-! engine-package-layout.uc -/

/-- `^0?[0-7]{3,4}$` -/
def modeShape : Regex Char :=
  let digit : Regex Char := .cls fun c => '0' ≤ c && c ≤ '7'
  .seq (.opt (.lit ['0'])) (.seq (.rep 3 digit) (.opt digit))

/-- `int(value, 8)` -/
def octal (t : Text) : ℤ := t.foldl (fun n c => 8 * n + (c.toNat - 48 : ℤ)) 0

def modeOf : Field (ℤ ⊕ Text) → ℤ
  | .value (.inl n) => n
  | .value (.inr t) => if modeShape.accepts t then octal t else -1
  | _ => -1

def acl (value : Field Acl) (wanted : ℤ) : Bool :=
  value.value?.any fun v => owned v.user && owned v.group && v.xattrs.bare && modeOf v.mode = wanted

def executable : Text := "foxcore-cli".toList

def slotFiles : List Text :=
  [executable, "slot.json".toList, "core-producer.json".toList, "capabilities.json".toList]

def noticeFiles : List Text :=
  ["LICENSE", "THIRD_PARTY_NOTICES.md", "DEPENDENCY-LICENSES.txt", "RUNTIME-NOTICES.txt",
    "LEGAL-PROVENANCE.json"].map String.toList

def slotFolder (value : Entry) : Text :=
  "usr/libexec/foxhole/engines/".toList ++ (value.id ++ '/' :: value.manifestSha256)

def noticeFolder (value : Entry) : Text := "usr/share/licenses/".toList ++ value.packageName

/-- The keys of `allowed`. -/
def allowed (value : Entry) : List Text :=
  slotFiles.map (pathOf (slotFolder value)) ++ noticeFiles.map (pathOf (noticeFolder value)) ++
    ["lib/apk/packages/".toList ++ (value.packageName ++ ".list".toList)]

/-- The folders above a file. -/
def above (path : Text) : List Text :=
  ((parts path).dropLast.inits.tail).map slash.intercalate

/-- The keys of `directories`. -/
def directories (value : Entry) : List Text := (allowed value).flatMap above

/-- The variables of the loop over the folders. -/
structure Slot where
  seen : List Text
  seenDirs : List Text
  nativeRootSeen : Bool
deriving DecidableEq

def rootKeys : List Text := ["name", "acl", "files"].map String.toList

/-- The folder without a name is the root itself. -/
def isNativeRoot (folder : Folder) : Bool :=
  "name".toList ∉ folder.keys || folder.name = .value []

def nativeRootFine (folder : Folder) : Bool :=
  (folder.acl.value?.any fun v => v.keys = 3 && v.mode = .value (.inl 0o755) &&
    v.user = .value "root".toList && v.group = .value "root".toList) &&
  ("files".toList ∉ folder.keys || folder.files = .value []) &&
  folder.keys.all (· ∈ rootKeys)

def slotFile (value : Entry) (folder : Text) (slot : Slot) : Option File → Except Failure Slot
  | some file => do
    let name := pathOf folder file.name
    require (name ∈ allowed value ∧ name ∉ slot.seen ∧ file.target = .missing ∧
      acl file.acl (if file.name = executable then 0o755 else 0o644))
      .enginePackageVerificationFailed
    return { slot with seen := slot.seen ++ [name] }
  | none => throw .notAnObject

def slotFolderFiles (value : Entry) (slot : Slot) : Option Folder → Except Failure Slot
  | some folder =>
    if isNativeRoot folder then do
      require (slot.nativeRootSeen = false ∧ nativeRootFine folder) .enginePackageVerificationFailed
      return { slot with nativeRootSeen := true }
    else
      match folder.name, folder.files.orElse [] with
      | .value name, some files => do
        require (name ∈ directories value ∧ name ∉ slot.seenDirs ∧ acl folder.acl 0o755)
          .enginePackageVerificationFailed
        files.foldlM (slotFile value name) { slot with seenDirs := slot.seenDirs ++ [name] }
      | _, _ => throw .enginePackageVerificationFailed
  | none => throw .enginePackageVerificationFailed

def layout (document : Option Document) (value : Entry) : Except Failure Unit :=
  match document with
  | some ⟨some info, scripts, triggers, .value paths⟩ => do
    require (info.name = .value value.packageName ∧ info.version = .value value.packageVersion ∧
      info.arch = .value value.architecture ∧ info.installedSize = .value value.installedBytes ∧
      (scripts = .null ∨ scripts = .value []) ∧ triggers.bare) .enginePackageVerificationFailed
    require ((info.provides = .null ∨ info.provides = .value []) ∧ info.replaces.bare ∧
      info.installIf.bare ∧ info.recommends.bare) .enginePackageVerificationFailed
    require (paths.length ≤ 24) .enginePackageVerificationFailed
    let slot ← paths.foldlM (slotFolderFiles value) ⟨[], [], false⟩
    require (slot.seen.length = (allowed value).dedup.length) .enginePackageVerificationFailed
  | _ => throw .enginePackageVerificationFailed

/-! What update-model.uc and ram-bootstrap-model.uc both have. -/

/-- `[-a-zA-Z0-9_+./]` -/
def isPathChar (c : Char) : Bool := isAlnum c || c ∈ ['_', '+', '.', '/', '-']

/-- `(^|\/)\.\.?($|\/)` -/
def dotted (path : Text) : Bool := ['.'] ∈ parts path || ['.', '.'] ∈ parts path

/-- `^[-a-zA-Z0-9_+./]+$`, and no step to the folder itself or above it. -/
def plainPath (path : Text) : Bool := path ≠ [] && path.all isPathChar && !dotted path

def baseFiles : List Text :=
  ["etc/config/foxhole", "etc/uci-defaults/99-foxhole-openwrt-client",
    "etc/nftables.d/31-foxhole-inbound.nft", "etc/nftables.d/30-foxhole-mobile.nft",
    "usr/share/nftables.d/chain-pre/input/30-foxhole-mobile.nft", "www/foxhole.html",
    "www/cgi-bin/foxhole", "www/foxhole-mobile/cgi-bin/foxhole",
    "usr/share/rpcd/ucode/foxhole.uc", "usr/share/rpcd/acl.d/luci-app-foxhole.json",
    "usr/share/luci/menu.d/luci-app-foxhole.json",
    "lib/apk/packages/foxhole-openwrt-client.list",
    "lib/apk/packages/foxhole-openwrt-client.conffiles",
    "lib/apk/packages/foxhole-openwrt-client.conffiles_static",
    "lib/upgrade/keep.d/foxhole-openwrt-client",
    "usr/libexec/foxhole-engine-command-v2", "usr/libexec/foxhole-transaction-stage-v1",
    "usr/libexec/foxhole-transaction-command-v1", "usr/share/foxhole/transaction-x86_64.gz",
    "usr/share/foxhole/transaction-aarch64_cortex-a53.gz"].map String.toList

/-- `[a-z-]+` -/
def lowerName : Regex Char := .plus (.cls fun c => isLower c || c = '-')

/-- `[a-zA-Z0-9_.-]+` -/
def fileName : Regex Char := .plus (.cls fun c => isAlnum c || c ∈ ['_', '.', '-'])

def resources : Text := "www/luci-static/resources/foxhole/".toList

/-- `^www\/luci-static\/resources\/foxhole\/[-a-zA-Z0-9_+./]+$` -/
def resourceShape : Regex Char := .seq (.lit resources) (.plus (.cls isPathChar))

/-- `d\/foxhole-[a-z-]+` -/
def initFile : Regex Char := .seq (.lit "d/foxhole-".toList) lowerName

/-- `[a-zA-Z0-9_.-]+\.(uc|json|pem)` -/
def sourceFile : Regex Char :=
  .seq fileName (.alt (.lit ".uc".toList) (.alt (.lit ".json".toList) (.lit ".pem".toList)))

/-- `[01]-foxhole(-inbound)?\.nft` -/
def tableFile : Regex Char :=
  .seq (.cls fun c => c = '0' || c = '1') (.seq (.lit "-foxhole".toList)
    (.seq (.opt (.lit "-inbound".toList)) (.lit ".nft".toList)))

/-- `d\/chain-pre\/(input|forward)\/3` in front of it. -/
def tablePath : Regex Char :=
  .seq (.lit "d/chain-pre/".toList) (.seq (.alt (.lit "input".toList) (.lit "forward".toList))
    (.seq (.lit "/3".toList) tableFile))

/-- `[a-z-]+\.js` -/
def viewFile : Regex Char := .seq lowerName (.lit ".js".toList)

/-- The other expressions of `base_path`. A dot without a backslash stands for any character. -/
def shapes : List (Regex Char) :=
  [.seq (.lit "etc/init".toList) (.seq (.cls fun _ => true) initFile),
    .seq (.lit "usr/libexec/foxhole-".toList) lowerName,
    .seq (.lit "usr/share/foxhole/".toList) sourceFile,
    .seq (.lit "usr/share/nftables".toList) (.seq (.cls fun _ => true) tablePath),
    .seq (.lit "usr/share/licenses/foxhole-openwrt-client/".toList) fileName,
    .seq (.lit "www/luci-static/resources/view/foxhole/".toList) viewFile]

def basePath (path : Text) : Bool :=
  path.length ≤ 256 && plainPath path &&
    (path ∈ baseFiles || shapes.any (·.accepts path) || resourceShape.accepts path)

def baseAcl (value : Field Acl) (modes : List ℤ) : Bool :=
  value.value?.any fun v =>
    let mode := match v.mode with
      | .value (.inl n) => n
      | _ => -1
    mode ∈ modes && owned v.user && owned v.group && !v.xattrs.filled

def safeInt (n : ℤ) : Bool := 0 ≤ n && n ≤ 9007199254740991

def client : Text := "foxhole-openwrt-client".toList

def hooks : List Text :=
  ["pre-install", "post-install", "pre-deinstall", "post-deinstall", "pre-upgrade",
    "post-upgrade"].map String.toList

def configFile : Text := "etc/config/foxhole".toList

def requiredFiles : List Text :=
  ["usr/share/foxhole/update-policy.json", "usr/share/foxhole/engine-catalog.json",
    "usr/share/foxhole/update-service.uc", "usr/libexec/foxhole-update-job", "www/foxhole.html",
    "usr/share/rpcd/ucode/foxhole.uc", "etc/config/foxhole",
    "lib/apk/packages/foxhole-openwrt-client.list"].map String.toList

/-- The variables of the loops. -/
structure Base where
  seen : List Text
  directories : List Text
  count : ℕ
  total : ℤ
deriving DecidableEq

def sized (maximum : ℤ) (size : Field ℤ) : Bool :=
  size.value?.any fun n => safeInt n && n ≤ maximum

def baseFile (failed : Failure) (folder : Text) (base : Base) : Option File → Except Failure Base
  | some file => do
    let path := pathOf folder file.name
    require (basePath path ∧ path ∉ base.seen ∧ file.target = .missing ∧
      baseAcl file.acl (if path = configFile then [0o600, 0o644, 0o755] else [0o644, 0o755]) ∧
      sized 8388608 file.size ∧ file.hash.value?.any (hexOf 64).accepts) failed
    return { base with
      seen := base.seen ++ [path]
      count := base.count + 1
      total := base.total + file.size.value?.getD 0 }
  | none => throw .notAnObject

/-- `folder.name || ''`. A name that is no text is let through nowhere. -/
def folderName (folder : Folder) : Option Text :=
  match folder.name with
  | .missing => some []
  | .value name => some name
  | .invalid => none

def baseFolder (failed : Failure) (base : Base) : Option Folder → Except Failure Base
  | some folder =>
    match folderName folder, folder.files.orElse [] with
    | some name, some files => do
      require (name ∉ base.directories ∧ baseAcl folder.acl [0o755] ∧
        (name = [] ∨ plainPath name)) failed
      files.foldlM (baseFile failed name) { base with directories := base.directories ++ [name] }
    | _, _ => throw failed
  | none => throw .notAnObject

def baseLayoutWith (failed : Failure) (document : Option Document) (version : Text) :
    Except Failure (List Text) :=
  match document with
  | some ⟨some info, scripts, triggers, .value paths⟩ => do
    require (info.name = .value client ∧ info.version = .value version ∧
      info.arch = .value "noarch".toList ∧ sized 33554432 info.installedSize ∧
      paths.length ≤ 192 ∧ triggers.filled = false) failed
    require ((scripts.orElse []).any fun keys => keys.all (· ∈ hooks)) failed
    require (info.provides = .null ∨ info.provides = .value [] ∨
      info.provides = .value [some (client ++ "-any".toList)]) failed
    require (info.replaces.filled = false ∧ info.installIf.filled = false ∧
      info.recommends.filled = false) failed
    let base ← paths.foldlM (baseFolder failed) ⟨[], [], 0, 0⟩
    require (8 ≤ base.count ∧ base.count ≤ 768 ∧ base.total ≤ 33554432) failed
    require (∀ name ∈ base.directories, name = [] ∨ ∃ path ∈ base.seen,
      path.take (name.length + 1) = name ++ slash) failed
    require (∀ path ∈ requiredFiles, path ∈ base.seen) failed
    return base.seen
  | _ => throw failed

namespace Update

def baseLayout (document : Option Document) (version : Text) : Except Failure (List Text) :=
  baseLayoutWith .updatePackageVerificationFailed document version

end Update

namespace RamBootstrap

def baseLayout (document : Option Document) (version : Text) : Except Failure (List Text) :=
  baseLayoutWith .ramBootstrapValidationFailed document version

end RamBootstrap

/-- Loops whose steps succeed alike succeed alike. -/
theorem foldlM_ok_congr {ε α β : Type} {f g : β → α → Except ε β}
    (h : ∀ b a c, f b a = .ok c ↔ g b a = .ok c) {l : List α} {b c : β} :
    l.foldlM f b = .ok c ↔ l.foldlM g b = .ok c := by
  induction l generalizing b with
  | nil => rfl
  | cons a l ih => simp only [List.foldlM_cons, bind_eq_ok, h, ih]

/-! Paths as a file system reads them. -/

def Apart (a b : Char) : Prop := ¬ (a = '/' ∧ b = '/')

instance : DecidableRel Apart := fun _ _ => inferInstanceAs (Decidable (¬ _))

/-- Of several slashes in a row one counts. -/
def collapse (path : Text) : Text := path.destutter Apart

/-- The path has slashes in a row. -/
def Doubled (path : Text) : Prop := ¬ path.IsChain Apart

variable {path rest a b : Text} {c : Char} {r : Regex Char}

theorem collapse_of_not_doubled (h : ¬ Doubled path) : collapse path = path :=
  List.destutter_of_isChain Apart path (not_not.1 h)

theorem chain_of_slash_notMem (h : '/' ∉ path) : path.IsChain Apart := by
  induction path with
  | nil => exact .nil
  | cons c path ih =>
    refine List.isChain_cons.2 ⟨fun d _ => ?_, ih fun hm => h (List.mem_cons_of_mem _ hm)⟩
    rintro ⟨rfl, -⟩
    exact h List.mem_cons_self

/-- A text with single slashes in front of one without any. -/
theorem chain_append (ha : a.IsChain Apart) (hb : '/' ∉ b) : (a ++ b).IsChain Apart := by
  refine List.isChain_append.2 ⟨ha, chain_of_slash_notMem hb, fun x _ y hy => ?_⟩
  rintro ⟨-, rfl⟩
  exact hb (List.mem_of_mem_head? hy)

/-- One character between two texts of which neither has its slash there. -/
theorem chain_between (ha : a.IsChain Apart) (hlast : ∀ x ∈ a.getLast?, x ≠ '/')
    (hb : b.IsChain Apart) (hhead : ∀ y ∈ b.head?, y ≠ '/') : (a ++ c :: b).IsChain Apart := by
  refine List.isChain_append.2 ⟨ha, List.isChain_cons.2 ⟨fun y hy h => hhead y hy h.2, hb⟩, ?_⟩
  rintro x hx y -
  exact fun h => hlast x hx h.1

/-- An expression without a slash. -/
theorem slash_notMem (h : r.Within (· ≠ '/')) (hw : path ∈ r.lang) : '/' ∉ path := fun hm =>
  Regex.Within.forall_mem h hw '/' hm rfl

theorem within_lit (h : '/' ∉ a) : (Regex.lit a).Within (· ≠ '/') := by
  induction a with
  | nil => trivial
  | cons c a ih =>
    refine ⟨fun d hd => ?_, ih fun hm => h (List.mem_cons_of_mem _ hm)⟩
    rintro rfl
    exact h (List.mem_cons.2 (Or.inl (beq_iff_eq.1 hd)))

theorem within_lowerName : lowerName.Within (· ≠ '/') := by
  have h : ∀ c : Char, (isLower c || decide (c = '-')) = true → c ≠ '/' := by
    rintro c hc rfl
    revert hc
    decide
  exact ⟨h, h⟩

theorem within_fileName : fileName.Within (· ≠ '/') := by
  have h : ∀ c : Char, (isAlnum c || decide (c ∈ ['_', '.', '-'])) = true → c ≠ '/' := by
    rintro c hc rfl
    revert hc
    decide
  exact ⟨h, h⟩

/-- A text that is written out, and an expression without a slash. -/
theorem chain_lit_seq (hlit : a.IsChain Apart) (hr : r.Within (· ≠ '/'))
    (h : path ∈ (Regex.seq (.lit a) r).lang) : path.IsChain Apart := by
  obtain ⟨u, v, rfl, hu, hv⟩ := Regex.mem_lang_seq.1 h
  obtain rfl : u = a := Regex.lang_lit.1 hu
  exact chain_append hlit (slash_notMem hr hv)

/-- Behind a folder's dot that may be any character. -/
theorem chain_any (ha : a.IsChain Apart) (hlast : ∀ x ∈ a.getLast?, x ≠ '/')
    (hr : ∀ w ∈ r.lang, w.IsChain Apart ∧ ∀ y ∈ w.head?, y ≠ '/')
    (h : path ∈ (Regex.seq (.lit a) (.seq (.cls fun _ => true) r)).lang) :
    path.IsChain Apart := by
  obtain ⟨u, v, rfl, hu, hv⟩ := Regex.mem_lang_seq.1 h
  obtain rfl : u = a := Regex.lang_lit.1 hu
  obtain ⟨c, w, rfl, -, hw⟩ := Regex.mem_lang_cls_seq.1 hv
  obtain ⟨hchain, hhead⟩ := hr w hw
  exact chain_between ha hlast hchain hhead

theorem chain_initFile {w : Text} (hw : w ∈ initFile.lang) :
    w.IsChain Apart ∧ ∀ y ∈ w.head?, y ≠ '/' := by
  refine ⟨chain_lit_seq (by decide) within_lowerName hw, ?_⟩
  obtain ⟨u, v, rfl, hu, -⟩ := Regex.mem_lang_seq.1 hw
  obtain rfl : u = "d/foxhole-".toList := Regex.lang_lit.1 hu
  simp

theorem within_sourceFile : sourceFile.Within (· ≠ '/') :=
  ⟨within_fileName, within_lit (by decide), within_lit (by decide), within_lit (by decide)⟩

theorem within_viewFile : viewFile.Within (· ≠ '/') :=
  ⟨within_lowerName, within_lit (by decide)⟩

theorem within_tableFile : tableFile.Within (· ≠ '/') := by
  refine ⟨?_, within_lit (by decide), ⟨trivial, within_lit (by decide)⟩, within_lit (by decide)⟩
  rintro c hc rfl
  revert hc
  decide

theorem chain_tablePath {w : Text} (hw : w ∈ tablePath.lang) :
    w.IsChain Apart ∧ ∀ y ∈ w.head?, y ≠ '/' := by
  obtain ⟨u, v, rfl, hu, hv⟩ := Regex.mem_lang_seq.1 hw
  obtain rfl : u = "d/chain-pre/".toList := Regex.lang_lit.1 hu
  refine ⟨?_, by simp⟩
  obtain ⟨hook, v, rfl, hhook, hv⟩ := Regex.mem_lang_seq.1 hv
  obtain ⟨u, tail, rfl, hu, htail⟩ := Regex.mem_lang_seq.1 hv
  obtain rfl : u = "/3".toList := Regex.lang_lit.1 hu
  have hhook : hook = "input".toList ∨ hook = "forward".toList := by
    rcases hhook with h | h
    · exact Or.inl (Regex.lang_lit.1 h)
    · exact Or.inr (Regex.lang_lit.1 h)
  have hfixed : ("d/chain-pre/".toList ++ (hook ++ "/3".toList)).IsChain Apart := by
    rcases hhook with rfl | rfl <;> decide
  simpa using chain_append hfixed (slash_notMem within_tableFile htail)

set_option maxRecDepth 4000 in
theorem chain_shapes (hr : r ∈ shapes) (h : r.accepts path = true) : path.IsChain Apart := by
  rw [Regex.accepts_iff] at h
  simp only [shapes, List.mem_cons, List.not_mem_nil, or_false] at hr
  rcases hr with rfl | rfl | rfl | rfl | rfl | rfl
  · exact chain_any (by decide) (by simp) (fun w hw => chain_initFile hw) h
  · exact chain_lit_seq (by decide) within_lowerName h
  · exact chain_lit_seq (by decide) within_sourceFile h
  · exact chain_any (by decide) (by simp) (fun w hw => chain_tablePath hw) h
  · exact chain_lit_seq (by decide) within_fileName h
  · exact chain_lit_seq (by decide) within_viewFile h

theorem chain_baseFiles :
    ∀ file ∈ baseFiles, file.IsChain Apart ∧ file.getLast? ≠ some '/' := by
  simp only [baseFiles, List.map_cons, List.map_nil]
  -- each name as the list of its characters, so that the check need not decode it
  iterate 20 rw [String.toList_ofList]
  decide +kernel

/-- Slashes in a row are let through in one folder only. -/
theorem resources_of_doubled (h : basePath path = true) (hd : Doubled path) :
    ∃ rest, rest ≠ [] ∧ path = resources ++ rest := by
  simp only [basePath, Bool.and_eq_true, Bool.or_eq_true, List.any_eq_true] at h
  obtain ⟨-, (hfile | ⟨r, hr, haccepts⟩) | haccepts⟩ := h
  · exact absurd (chain_baseFiles path (of_decide_eq_true hfile)).1 hd
  · exact absurd (chain_shapes hr haccepts) hd
  · obtain ⟨u, rest, rfl, hu, hrest⟩ := Regex.mem_lang_seq.1 (Regex.accepts_iff.1 haccepts)
    obtain rfl : u = resources := Regex.lang_lit.1 hu
    obtain ⟨c, v, rfl, -, -⟩ := Regex.mem_lang_cls_seq.1 hrest
    exact ⟨c :: v, List.cons_ne_nil c v, rfl⟩


/-- Single slashes stay where they are in front of the first run. -/
theorem destutter'_append {d : Char} (h : (d :: (a ++ [c])).IsChain Apart) :
    (a ++ c :: rest).destutter' Apart d = d :: (a ++ rest.destutter' Apart c) := by
  induction a generalizing d with
  | nil =>
    have hdc : Apart d c := by simpa using h
    rw [List.nil_append, List.destutter'_cons_pos rest hdc, List.nil_append]
  | cons e a ih =>
    obtain ⟨hde, h⟩ := List.isChain_cons_cons.1 h
    rw [List.cons_append, List.destutter'_cons_pos _ hde, ih h, List.cons_append]

/-- What is left of a run of slashes and what follows it. -/
theorem destutter'_slash (rest : Text) : ∃ tail, rest.destutter' Apart '/' = '/' :: tail ∧
    (tail = [] ↔ ∀ c ∈ rest, c = '/') := by
  induction rest with
  | nil => exact ⟨[], rfl, by simp⟩
  | cons c rest ih =>
    by_cases hc : c = '/'
    · subst hc
      obtain ⟨tail, htail, hiff⟩ := ih
      refine ⟨tail, ?_, by simpa using hiff⟩
      rw [List.destutter'_cons_neg rest (by decide), htail]
    · refine ⟨rest.destutter' Apart c, List.destutter'_cons_pos rest fun h => hc h.2, ?_⟩
      simp [hc, List.destutter'_ne_nil]

theorem parts_ne_nil : ∀ path, parts path ≠ []
  | [] => by simp [parts]
  | c :: rest => by
    unfold parts
    split
    · exact List.cons_ne_nil _ _
    · simpa using parts_ne_nil rest

/-- No step of the path is new. -/
theorem parts_destutter' (c : Char) (rest : Text) : ∃ head tail tail',
    parts (rest.destutter' Apart c) = head :: tail ∧ parts (c :: rest) = head :: tail' ∧
      tail ⊆ tail' := by
  induction rest generalizing c with
  | nil =>
    obtain ⟨head, tail, h⟩ := List.exists_cons_of_ne_nil (parts_ne_nil [c])
    exact ⟨head, tail, tail, h, h, List.Subset.refl tail⟩
  | cons d rest ih =>
    by_cases hcd : Apart c d
    · obtain ⟨head, tail, tail', hd, hr, hsub⟩ := ih d
      rw [List.destutter'_cons_pos rest hcd]
      by_cases hc : c = '/'
      · refine ⟨[], head :: tail, head :: tail', ?_, ?_, List.cons_subset_cons head hsub⟩
        · rw [parts, if_pos hc, hd]
        · rw [parts, if_pos hc, hr]
      · refine ⟨c :: head, tail, tail', ?_, ?_, hsub⟩
        · rw [parts, if_neg hc, hd, List.modifyHead_cons]
        · rw [parts, if_neg hc, hr, List.modifyHead_cons]
    · obtain ⟨rfl, rfl⟩ := not_not.1 hcd
      obtain ⟨head, tail, tail', hd, hr, hsub⟩ := ih '/'
      rw [parts, if_pos rfl] at hr
      obtain ⟨rfl, rfl⟩ := List.cons.inj hr
      refine ⟨[], tail, [] :: parts rest, ?_, ?_, List.subset_cons_of_subset _ hsub⟩
      · rw [List.destutter'_cons_neg rest hcd, hd]
      · rw [parts, if_pos rfl, parts, if_pos rfl]

theorem parts_collapse (path : Text) : parts (collapse path) ⊆ parts path := by
  cases path with
  | nil => exact List.Subset.refl _
  | cons c rest =>
    obtain ⟨head, tail, tail', hd, hr, hsub⟩ := parts_destutter' c rest
    rw [collapse, List.destutter_cons', hd, hr]
    exact List.cons_subset_cons head hsub

theorem collapse_sublist (path : Text) : (collapse path).Sublist path :=
  List.destutter_sublist Apart path

theorem collapse_resources (rest : Text) : ∃ tail,
    collapse (resources ++ rest) = resources ++ tail ∧ (tail = [] ↔ ∀ c ∈ rest, c = '/') := by
  obtain ⟨tail, htail, hiff⟩ := destutter'_slash rest
  refine ⟨tail, ?_, hiff⟩
  have hsplit : resources = 'w' :: ("ww/luci-static/resources/foxhole".toList ++ ['/']) := by decide
  have hchain : ('w' :: ("ww/luci-static/resources/foxhole".toList ++ ['/'])).IsChain Apart := by
    decide
  rw [hsplit, List.cons_append, List.append_assoc, List.singleton_append, collapse,
    List.destutter_cons', destutter'_append hchain, htail]
  simp

theorem basePath_resources : basePath resources = false := by
  have hlast : resources.getLast? = some '/' := by
    unfold resources
    rw [String.toList_ofList]
    rfl
  have hfile : resources ∉ baseFiles := fun h => (chain_baseFiles _ h).2 hlast
  have hshape : shapes.any (·.accepts resources) = false := by decide +kernel
  have hresource : resourceShape.accepts resources = false := by decide +kernel
  simp [basePath, hfile, hshape, hresource]

/-- A path that is let through is let through with single slashes too, unless nothing but slashes
follows the folder that allows them. -/
theorem basePath_collapse (h : basePath path = true) : basePath (collapse path) = true ↔
    ¬ ∃ slashes, path = resources ++ slashes ∧ ∀ c ∈ slashes, c = '/' := by
  constructor
  · rintro hc ⟨slashes, rfl, hslashes⟩
    obtain ⟨tail, htail, hiff⟩ := collapse_resources slashes
    rw [htail, hiff.2 hslashes, List.append_nil, basePath_resources] at hc
    cases hc
  · intro hnot
    by_cases hd : Doubled path
    · obtain ⟨rest, -, rfl⟩ := resources_of_doubled h hd
      obtain ⟨tail, htail, hiff⟩ := collapse_resources rest
      have hsub := collapse_sublist (resources ++ rest)
      have hne : tail ≠ [] := fun he => hnot ⟨rest, rfl, hiff.1 he⟩
      simp only [basePath, plainPath, Bool.and_eq_true, Bool.or_eq_true, decide_eq_true_eq,
        List.all_eq_true, Bool.not_eq_true'] at h ⊢
      obtain ⟨⟨hlen, ⟨-, hchars⟩, hdots⟩, -⟩ := h
      refine ⟨⟨hsub.length_le.trans hlen, ⟨?_, fun c hc => hchars c (hsub.subset hc)⟩, ?_⟩,
        Or.inr ?_⟩
      · intro he
        rw [htail] at he
        exact hne (List.append_eq_nil_iff.1 he).2
      · simp only [dotted, Bool.or_eq_false_iff, decide_eq_false_iff_not] at hdots ⊢
        exact ⟨fun hm => hdots.1 (parts_collapse _ hm),
          fun hm => hdots.2 (parts_collapse _ hm)⟩
      · rw [htail]
        refine Regex.accepts_iff.2
          (Regex.mem_lang_seq.2 ⟨resources, tail, rfl, Regex.lang_lit.2 rfl, ?_⟩)
        have hall : ∀ c ∈ tail, isPathChar c = true := fun c hc =>
          hchars c (hsub.subset (htail ▸ List.mem_append_right _ hc))
        exact Regex.accepts_iff.1 (Regex.accepts_plus_cls.2 ⟨hne, hall⟩)
    · rw [collapse_of_not_doubled hd]
      exact h


/-! The files of a document, and what the loops make of them. -/

/-- The files of a folder with their paths. -/
def filesOf (folder : Folder) : List (Text × File) :=
  ((folder.files.orElse []).getD []).reduceOption.map fun file =>
    (pathOf ((folderName folder).getD []) file.name, file)

/-- The files of the folders. -/
def installed (paths : List (Option Folder)) : List (Text × File) :=
  paths.reduceOption.flatMap filesOf

def Document.folders (document : Document) : List (Option Folder) := document.paths.value?.getD []

variable {value : Entry} {failed failed' : Failure} {folder : Folder} {name : Text}
  {slot slot' : Slot}
  {base base' : Base} {items : List (Text × File)} {folders : List Folder}
  {paths : List (Option Folder)} {files : List (Option File)} {document : Document} {version : Text}
  {names : List Text}

theorem installed_append (pre : List (Option Folder)) (folder : Folder) :
    installed (pre ++ [some folder]) = installed pre ++ filesOf folder := by
  simp [installed, List.reduceOption_append, List.reduceOption_singleton]

/-- The mode that `layout` asks of a file, by the name it has in its folder. -/
def modeFor (file : Text) : ℤ := if file = executable then 0o755 else 0o644

structure SlotFile (value : Entry) (item : Text × File) : Prop where
  path : item.1 ∈ allowed value
  target : item.2.target = .missing
  mode : acl item.2.acl (modeFor item.2.name) = true

/-- Everything the loop of `layout` knows of the files it has been over. -/
structure Slot.Holds (value : Entry) (items : List (Text × File)) (slot : Slot) : Prop where
  seen : slot.seen = items.map Prod.fst
  nodup : slot.seen.Nodup
  files : ∀ item ∈ items, SlotFile value item

/-- The folder is the root, which has no files, or one of the folders above the files. -/
def Folder.Fine (value : Entry) (folder : Folder) : Prop :=
  (isNativeRoot folder = true ∧ nativeRootFine folder = true ∧ filesOf folder = []) ∨
    ∃ name, folder.name = .value name ∧ name ∈ directories value ∧
      PackageLayout.acl folder.acl 0o755 = true

theorem slotFile_holds (hs : slot.Holds value items) {file : Option File}
    (h : slotFile value name slot file = .ok slot') : ∃ found, file = some found ∧
      slot'.Holds value (items ++ [(pathOf name found.name, found)]) := by
  cases file with
  | none => cases h
  | some file =>
    simp only [slotFile, bind_eq_ok, require_eq_ok, pure_eq_ok] at h
    obtain ⟨_, ⟨hallowed, hnew, htarget, hacl⟩, rfl⟩ := h
    refine ⟨file, rfl, by simp [hs.seen], ?_, ?_⟩
    · rw [List.nodup_append]
      refine ⟨hs.nodup, List.nodup_singleton _, fun a ha b hb he => ?_⟩
      exact hnew (List.mem_singleton.1 hb ▸ he ▸ ha)
    · intro item hitem
      rcases List.mem_append.1 hitem with hitem | hitem
      · exact hs.files item hitem
      · rw [List.mem_singleton.1 hitem]
        exact ⟨hallowed, htarget, hacl⟩

theorem slotFiles_holds (hs : slot.Holds value items)
    (h : files.foldlM (slotFile value name) slot = .ok slot') :
    slot'.Holds value
      (items ++ files.reduceOption.map fun file => (pathOf name file.name, file)) := by
  refine foldlM_prefix (I := fun pre slot => slot.Holds value
    (items ++ pre.reduceOption.map fun file => (pathOf name file.name, file))) ?_ ?_ h
  · intro pre slot file slot' hs h
    obtain ⟨found, rfl, hs'⟩ := slotFile_holds hs h
    simpa [List.reduceOption_append, List.reduceOption_singleton] using hs'
  · simpa [List.reduceOption] using hs

theorem filesOf_nativeRoot (h : nativeRootFine folder = true) : filesOf folder = [] := by
  simp only [nativeRootFine, Bool.and_eq_true, Bool.or_eq_true, decide_eq_true_eq] at h
  obtain ⟨⟨-, hfiles⟩, -⟩ := h
  rcases hfiles with hfiles | hfiles
  · rw [filesOf, folder.unfiled hfiles]
    rfl
  · rw [filesOf, hfiles]
    rfl

theorem slotFolderFiles_holds (hs : slot.Holds value items) {folder : Option Folder}
    (h : slotFolderFiles value slot folder = .ok slot') : ∃ found, folder = some found ∧
      found.Fine value ∧ slot'.Holds value (items ++ filesOf found) := by
  cases folder with
  | none => cases h
  | some folder =>
    refine ⟨folder, rfl, ?_⟩
    simp only [slotFolderFiles] at h
    split at h
    · next hroot =>
      simp only [bind_eq_ok, require_eq_ok, pure_eq_ok] at h
      obtain ⟨_, ⟨-, hfine⟩, rfl⟩ := h
      have hnone := filesOf_nativeRoot hfine
      refine ⟨Or.inl ⟨hroot, hfine, hnone⟩, ?_⟩
      rw [hnone, List.append_nil]
      exact ⟨hs.seen, hs.nodup, hs.files⟩
    · split at h
      · next name files hname hfiles =>
        simp only [bind_eq_ok, require_eq_ok] at h
        obtain ⟨_, ⟨hdir, -, hacl⟩, hrun⟩ := h
        refine ⟨Or.inr ⟨name, hname, hdir, hacl⟩, ?_⟩
        have hs' : Slot.Holds value items { slot with seenDirs := slot.seenDirs ++ [name] } :=
          ⟨hs.seen, hs.nodup, hs.files⟩
        simpa [filesOf, folderName, hname, hfiles] using slotFiles_holds hs' hrun
      · cases h

theorem slotFolders_holds (h : paths.foldlM (slotFolderFiles value) ⟨[], [], false⟩ = .ok slot) :
    slot.Holds value (installed paths) ∧ ∀ folder ∈ paths.reduceOption, folder.Fine value := by
  refine foldlM_prefix (I := fun pre slot => slot.Holds value (installed pre) ∧
    ∀ folder ∈ pre.reduceOption, folder.Fine value) ?_ ?_ h
  · rintro pre slot folder slot' ⟨hs, hfine⟩ h
    obtain ⟨found, rfl, hfound, hs'⟩ := slotFolderFiles_holds hs h
    refine ⟨installed_append pre found ▸ hs', fun folder hfolder => ?_⟩
    rw [List.reduceOption_append, List.reduceOption_singleton] at hfolder
    rcases List.mem_append.1 hfolder with hfolder | hfolder
    · exact hfine folder hfolder
    · obtain rfl : folder = found := by simpa using hfolder
      exact hfound
  · exact ⟨⟨rfl, List.nodup_nil, by simp [installed, List.reduceOption]⟩, by
      simp [List.reduceOption]⟩

/-! The files of a slot are ten. -/

theorem pathOf_inj {folder : Text} : Function.Injective (pathOf folder) := fun a b h => by
  simpa [pathOf] using h

theorem allowed_nodup : (allowed value).Nodup := by
  have hslot : (slotFiles.map (pathOf (slotFolder value))).Nodup :=
    List.Nodup.map pathOf_inj (by decide)
  have hnotice : (noticeFiles.map (pathOf (noticeFolder value))).Nodup :=
    List.Nodup.map pathOf_inj (by decide)
  have hthird : ∀ path ∈ slotFiles.map (pathOf (slotFolder value)), path[4]? = some 'l' := by
    intro path hpath
    obtain ⟨file, -, rfl⟩ := List.mem_map.1 hpath
    rfl
  have hfourth : ∀ path ∈ noticeFiles.map (pathOf (noticeFolder value)), path[4]? = some 's' := by
    intro path hpath
    obtain ⟨file, -, rfl⟩ := List.mem_map.1 hpath
    rfl
  refine List.nodup_append.2 ⟨List.nodup_append.2 ⟨hslot, hnotice, ?_⟩, List.nodup_singleton _, ?_⟩
  · rintro a ha b hb rfl
    have := (hthird a ha).symm.trans (hfourth a hb)
    cases this
  · rintro a ha b hb rfl
    rw [List.mem_singleton.1 hb] at ha
    rcases List.mem_append.1 ha with ha | ha
    · cases hthird _ ha
    · cases hfourth _ ha

theorem layout_ok {document : Option Document} (h : layout document value = .ok ()) :
    ∃ found, document = some found ∧
      ((installed found.folders).map Prod.fst).Perm (allowed value) ∧
      (∀ folder ∈ found.folders.reduceOption, folder.Fine value) ∧
      ∀ item ∈ installed found.folders, SlotFile value item := by
  unfold layout at h
  split at h
  · next info scripts triggers paths =>
    simp only [bind_eq_ok, require_eq_ok] at h
    obtain ⟨_, -, _, -, _, -, slot, hrun, hcount⟩ := h
    obtain ⟨hs, hfolders⟩ := slotFolders_holds hrun
    refine ⟨_, rfl, ?_, hfolders, hs.files⟩
    have hsub : slot.seen ⊆ allowed value := by
      intro path hpath
      rw [hs.seen] at hpath
      obtain ⟨item, hitem, rfl⟩ := List.mem_map.1 hpath
      exact (hs.files item hitem).path
    rw [List.dedup_eq_self.2 allowed_nodup] at hcount
    have hperm := (List.subperm_of_subset hs.nodup hsub).perm_of_length_le hcount.ge
    rwa [hs.seen] at hperm
  · cases h


/-! Which mode a file has against the mode its path should have. -/

def binary (value : Entry) : Text := pathOf (slotFolder value) executable

/-- The mode of a file by its whole path. -/
def modeAt (value : Entry) (path : Text) : ℤ := if path = binary value then 0o755 else 0o644

theorem getLast?_pathOf {folder file : Text} (h : file ≠ []) :
    (pathOf folder file).getLast? = file.getLast? := by
  rw [pathOf, List.getLast?_append_of_ne_nil _ (List.cons_ne_nil _ _),
    List.getLast?_cons_of_ne_nil h]

/-- No other file of a slot ends like the binary. -/
theorem eq_binary (h : path ∈ allowed value) (hlast : path.getLast? = some 'i') :
    path = binary value := by
  have hnames : ∀ file ∈ slotFiles ++ noticeFiles, file ≠ [] ∧
      (file.getLast? = some 'i' → file = executable ∧ file ∈ slotFiles) := by decide
  have hnotice : executable ∉ noticeFiles := by decide
  simp only [allowed, List.append_assoc, List.mem_append, List.mem_map, List.mem_singleton] at h
  rcases h with ⟨file, hfile, rfl⟩ | ⟨file, hfile, rfl⟩ | rfl
  · obtain ⟨hne, himp⟩ := hnames file (List.mem_append_left _ hfile)
    rw [(himp ((getLast?_pathOf hne).symm.trans hlast)).1, binary]
  · obtain ⟨hne, himp⟩ := hnames file (List.mem_append_right _ hfile)
    exact absurd ((himp ((getLast?_pathOf hne).symm.trans hlast)).1 ▸ hfile) hnotice
  · rw [← List.append_assoc, List.getLast?_append_of_ne_nil _ (by decide)] at hlast
    have hend : ".list".toList.getLast? ≠ some 'i' := by decide
    exact absurd hlast hend

theorem mode_unique {mode : Field Acl} {m n : ℤ} (hm : acl mode m = true) (hn : acl mode n = true) :
    m = n := by
  simp only [acl, Option.any_eq_true, Bool.and_eq_true, decide_eq_true_eq] at hm hn
  obtain ⟨v, hv, -, hm⟩ := hm
  obtain ⟨w, hw, -, hn⟩ := hn
  rw [Option.some.inj (hv.symm.trans hw)] at hm
  exact hm.symm.trans hn

theorem mem_installed {item : Text × File} (h : item ∈ installed paths) :
    ∃ folder, item.1 = pathOf folder item.2.name := by
  obtain ⟨folder, -, h⟩ := List.mem_flatMap.1 h
  obtain ⟨file, -, rfl⟩ := List.mem_map.1 h
  exact ⟨_, rfl⟩

/-- A file has the mode of its path unless a part of the path stands in the name of the binary. -/
theorem mode_iff {item : Text × File} (hmem : item ∈ installed paths) (hs : SlotFile value item) :
    acl item.2.acl (modeAt value item.1) = true ↔
      (item.1 = binary value → item.2.name = executable) := by
  have hmode := hs.mode
  constructor
  · intro h hpath
    by_contra hname
    rw [modeAt, if_pos hpath] at h
    rw [modeFor, if_neg hname] at hmode
    cases mode_unique h hmode
  · intro h
    by_cases hname : item.2.name = executable
    · have hpath : item.1 = binary value := by
        obtain ⟨folder, hf⟩ := mem_installed hmem
        refine eq_binary hs.path ?_
        rw [hf, hname, getLast?_pathOf (by decide)]
        rfl
      rw [modeFor, if_pos hname] at hmode
      rw [modeAt, if_pos hpath]
      exact hmode
    · rw [modeFor, if_neg hname] at hmode
      rw [modeAt, if_neg fun hpath => hname (h hpath)]
      exact hmode

/-! The loops of `base_layout`. -/

structure BaseFile (item : Text × File) : Prop where
  path : basePath item.1 = true
  target : item.2.target = .missing

/-- Everything the loops of `base_layout` know of the files they have been over. -/
structure Base.Holds (items : List (Text × File)) (base : Base) : Prop where
  seen : base.seen = items.map Prod.fst
  nodup : base.seen.Nodup
  files : ∀ item ∈ items, BaseFile item

theorem baseFile_holds (hb : base.Holds items) {file : Option File}
    (h : baseFile failed name base file = .ok base') : ∃ found, file = some found ∧
      base'.Holds (items ++ [(pathOf name found.name, found)]) := by
  cases file with
  | none => cases h
  | some file =>
    simp only [baseFile, bind_eq_ok, require_eq_ok, pure_eq_ok] at h
    obtain ⟨_, ⟨hpath, hnew, htarget, -⟩, rfl⟩ := h
    refine ⟨file, rfl, by simp [hb.seen], ?_, ?_⟩
    · rw [List.nodup_append]
      refine ⟨hb.nodup, List.nodup_singleton _, fun a ha b hb he => ?_⟩
      exact hnew (List.mem_singleton.1 hb ▸ he ▸ ha)
    · intro item hitem
      rcases List.mem_append.1 hitem with hitem | hitem
      · exact hb.files item hitem
      · rw [List.mem_singleton.1 hitem]
        exact ⟨hpath, htarget⟩

theorem baseFolder_holds (hb : base.Holds items) {folder : Option Folder}
    (h : baseFolder failed base folder = .ok base') : ∃ found, folder = some found ∧
      base'.Holds (items ++ filesOf found) := by
  cases folder with
  | none => cases h
  | some folder =>
    refine ⟨folder, rfl, ?_⟩
    simp only [baseFolder] at h
    split at h
    · next name files hname hfiles =>
      simp only [bind_eq_ok, require_eq_ok] at h
      obtain ⟨_, -, hrun⟩ := h
      have hb' : Base.Holds items { base with directories := base.directories ++ [name] } :=
        ⟨hb.seen, hb.nodup, hb.files⟩
      have hall := foldlM_prefix (I := fun pre (base : Base) => base.Holds
        (items ++ pre.reduceOption.map fun file => (pathOf name file.name, file))) ?_ ?_ hrun
      · simpa [filesOf, hname, hfiles] using hall
      · intro pre base file base' hb h
        obtain ⟨found, rfl, hb'⟩ := baseFile_holds hb h
        simpa [List.reduceOption_append, List.reduceOption_singleton] using hb'
      · simpa [List.reduceOption] using hb'
    · cases h

theorem baseLayout_ok (h : baseLayoutWith failed (some document) version = .ok names) :
    names = (installed document.folders).map Prod.fst ∧ names.Nodup ∧
      ∀ item ∈ installed document.folders, BaseFile item := by
  unfold baseLayoutWith at h
  split at h
  · next info scripts triggers paths heq =>
    obtain rfl := Option.some.inj heq
    simp only [bind_eq_ok, require_eq_ok, pure_eq_ok] at h
    obtain ⟨_, -, _, -, _, -, _, -, base, hrun, _, -, _, -, _, -, rfl⟩ := h
    have hb : base.Holds (installed paths) := by
      refine foldlM_prefix (I := fun pre (base : Base) => base.Holds (installed pre)) ?_ ?_ hrun
      · intro pre base folder base' hb h
        obtain ⟨found, rfl, hb'⟩ := baseFolder_holds hb h
        exact installed_append pre found ▸ hb'
      · exact ⟨rfl, List.nodup_nil, by simp [installed, List.reduceOption]⟩
    exact ⟨hb.seen, hb.nodup, hb.files⟩
  · cases h

/-- Only the code of the failure differs between the copies. -/
theorem baseLayout_copies : baseLayoutWith failed (some document) version = .ok names ↔
    baseLayoutWith failed' (some document) version = .ok names := by
  have hfile : ∀ name base file base', baseFile failed name base file = .ok base' ↔
      baseFile failed' name base file = .ok base' := by
    intro name base file base'
    cases file with
    | none => simp [baseFile]
    | some file => simp only [baseFile, bind_eq_ok, require_eq_ok]
  have hfolder : ∀ base folder base', baseFolder failed base folder = .ok base' ↔
      baseFolder failed' base folder = .ok base' := by
    intro base folder base'
    cases folder with
    | none => simp [baseFolder]
    | some folder =>
      simp only [baseFolder]
      split
      · simp only [bind_eq_ok, require_eq_ok, foldlM_ok_congr (hfile _)]
      · simp
  simp only [baseLayoutWith]
  split
  · simp only [bind_eq_ok, require_eq_ok, foldlM_ok_congr hfolder]
  · simp


/-! What the audits keep out. -/

/-- A path with slashes in a row has a name behind them, and no other path of the list is read as
the same file. Only one folder lets such paths through. -/
def PlainlySpelt (paths : List Text) : Prop :=
  ∀ path ∈ paths, resources <+: path → Doubled path →
    (¬ ∃ slashes, path = resources ++ slashes ∧ ∀ c ∈ slashes, c = '/') ∧
    ∀ other ∈ paths, other ≠ path → collapse other ≠ collapse path

theorem collapse_iff (hnodup : names.Nodup) (hbase : ∀ path ∈ names, basePath path = true) :
    ((names.map collapse).Nodup ∧ ∀ path ∈ names, basePath (collapse path) = true) ↔
      PlainlySpelt names := by
  constructor
  · rintro ⟨hdistinct, hwhite⟩ path hpath - -
    refine ⟨(basePath_collapse (hbase path hpath)).1 (hwhite path hpath), fun other ho hne he => ?_⟩
    exact hne (List.inj_on_of_nodup_map hdistinct ho hpath he)
  · intro h
    have hunder : ∀ path ∈ names, Doubled path → resources <+: path := by
      intro path hpath hd
      obtain ⟨rest, -, he⟩ := resources_of_doubled (hbase path hpath) hd
      exact ⟨rest, he.symm⟩
    refine ⟨(List.nodup_map_iff_inj_on hnodup).2 fun p hp q hq he => ?_, fun path hpath => ?_⟩
    · by_contra hne
      by_cases hdp : Doubled p
      · exact (h p hp (hunder p hp hdp) hdp).2 q hq (Ne.symm hne) he.symm
      · by_cases hdq : Doubled q
        · exact (h q hq (hunder q hq hdq) hdq).2 p hp hne he
        · rw [collapse_of_not_doubled hdp, collapse_of_not_doubled hdq] at he
          exact hne he
    · by_cases hd : Doubled path
      · exact (basePath_collapse (hbase path hpath)).2 (h path hpath (hunder path hpath hd) hd).1
      · rw [collapse_of_not_doubled hd]
        exact hbase path hpath

/-- What passes `layout` are the files of the slot, once each, in folders that lead to them; their
modes are those of their paths when the binary is named as such. What passes `base_layout` are
different paths of files that may be there; they are different files there as long as slashes in a
row do not hide that two are one, or that none is meant. The two copies agree. -/
theorem package_layouts (document : Document) :
    (∀ value : Entry, layout (some document) value = .ok () →
      ((installed document.folders).map Prod.fst).Perm (allowed value) ∧
      (∀ folder ∈ document.folders.reduceOption, folder.Fine value) ∧
      ((∀ item ∈ installed document.folders, acl item.2.acl (modeAt value item.1) = true) ↔
        ∀ item ∈ installed document.folders,
          item.1 = binary value → item.2.name = executable)) ∧
    (∀ (version : Text) (seen : List Text),
      Update.baseLayout (some document) version = .ok seen →
        seen = (installed document.folders).map Prod.fst ∧ seen.Nodup ∧
        (∀ item ∈ installed document.folders, item.2.target = .missing) ∧
        (((seen.map collapse).Nodup ∧ ∀ path ∈ seen, basePath (collapse path) = true) ↔
          PlainlySpelt seen)) ∧
    ∀ (version : Text) (seen : List Text),
      Update.baseLayout (some document) version = .ok seen ↔
        RamBootstrap.baseLayout (some document) version = .ok seen := by
  refine ⟨fun value h => ?_, fun version seen h => ?_, fun _ _ =>
    baseLayout_copies⟩
  · obtain ⟨found, hfound, hperm, hfolders, hfiles⟩ := layout_ok h
    obtain rfl := Option.some.inj hfound
    refine ⟨hperm, hfolders, ?_⟩
    constructor
    · exact fun hmodes item hitem => (mode_iff hitem (hfiles item hitem)).1 (hmodes item hitem)
    · exact fun hnames item hitem => (mode_iff hitem (hfiles item hitem)).2 (hnames item hitem)
  · obtain ⟨hseen, hnodup, hfiles⟩ := baseLayout_ok h
    refine ⟨hseen, hnodup, fun item hitem => (hfiles item hitem).target, ?_⟩
    refine collapse_iff hnodup fun path hpath => ?_
    rw [hseen] at hpath
    obtain ⟨item, hitem, rfl⟩ := List.mem_map.1 hpath
    exact (hfiles item hitem).path

/-- Root's own, with this mode. -/
def rootAcl (mode : ℤ) : Field Acl :=
  .value ⟨3, .value (.inl mode), .value "root".toList, .value "root".toList, .null⟩

def sampleFile (mode : ℤ) (name : Text) : File :=
  ⟨name, .missing, rootAcl mode, .value 1, .value (List.replicate 64 'a')⟩

def sampleFolder (name : Text) (files : List File) : Option Folder :=
  some ⟨rootKeys, .value name, rootAcl 0o755, .value (files.map some), fun h =>
    absurd (by decide) h,
    fun h => absurd (by decide) h⟩

def sampleVersion : Text := "1.0.0-r3".toList

/-- One file of the panel under two spellings, beside the files that have to be there. -/
def twice : Document where
  info := some ⟨.value client, .value sampleVersion, .value "noarch".toList, .value 32768, .null,
    .null, .null, .null⟩
  scripts := .null
  triggers := .null
  paths := .value [
    sampleFolder "usr/share/foxhole".toList (["update-policy.json", "engine-catalog.json",
      "update-service.uc"].map fun name => sampleFile 0o644 name.toList),
    sampleFolder "usr/libexec".toList [sampleFile 0o755 "foxhole-update-job".toList],
    sampleFolder "www".toList [sampleFile 0o644 "foxhole.html".toList],
    sampleFolder "usr/share/rpcd/ucode".toList [sampleFile 0o644 "foxhole.uc".toList],
    sampleFolder "etc/config".toList [sampleFile 0o600 "foxhole".toList],
    sampleFolder "lib/apk/packages".toList [sampleFile 0o644 "foxhole-openwrt-client.list".toList],
    sampleFolder "www/luci-static/resources/foxhole".toList
      [sampleFile 0o644 "x.js".toList, sampleFile 0o644 "/x.js".toList]]

def twicePaths : List Text :=
  ["usr/share/foxhole/update-policy.json", "usr/share/foxhole/engine-catalog.json",
    "usr/share/foxhole/update-service.uc", "usr/libexec/foxhole-update-job", "www/foxhole.html",
    "usr/share/rpcd/ucode/foxhole.uc", "etc/config/foxhole",
    "lib/apk/packages/foxhole-openwrt-client.list", "www/luci-static/resources/foxhole/x.js",
    "www/luci-static/resources/foxhole//x.js"].map String.toList

theorem twice_layout : Update.baseLayout (some twice) sampleVersion = .ok twicePaths := by
  decide +kernel

theorem twice_collapsed : ¬ (twicePaths.map collapse).Nodup := by decide +kernel

/-- The second spelling is taken for a second file. -/
theorem twice_accepted : Update.baseLayout (some twice) sampleVersion = .ok twicePaths ∧
    ¬ (twicePaths.map collapse).Nodup :=
  ⟨twice_layout, twice_collapsed⟩

def sampleSlot : Entry := Engine.packageOf Engine.vless 0

def slotDocument : Document where
  info := some ⟨.value sampleSlot.packageName, .value sampleSlot.packageVersion,
    .value sampleSlot.architecture, .value sampleSlot.installedBytes, .null, .null, .null, .null⟩
  scripts := .null
  triggers := .null
  paths := .value [
    sampleFolder (slotFolder sampleSlot) (sampleFile 0o755 executable ::
      slotFiles.tail.map (sampleFile 0o644)),
    sampleFolder (noticeFolder sampleSlot) (noticeFiles.map (sampleFile 0o644)),
    sampleFolder "lib/apk/packages".toList
      [sampleFile 0o644 (sampleSlot.packageName ++ ".list".toList)]]

theorem slotDocument_layout : layout (some slotDocument) sampleSlot = .ok () := by decide +kernel

theorem package_layouts_sample :
    ((installed slotDocument.folders).map Prod.fst).Perm (allowed sampleSlot) ∧
      ¬ PlainlySpelt twicePaths := by
  refine ⟨((package_layouts slotDocument).1 sampleSlot slotDocument_layout).1, fun h => ?_⟩
  exact twice_collapsed
    (((package_layouts twice).2.1 sampleVersion twicePaths twice_layout).2.2.2.2 h).1

end Foxhole.PackageLayout
