import Foxhole.Lib.Command
import Foxhole.Ucode
import Mathlib.Logic.Function.Basic

/-! The switch of a RAM deployment to a new generation: the public binds of the old ledger are
taken down, those of the new one put up, and a failure on the way is rolled back. -/
namespace Foxhole.RamSwitch
open Text Command

inductive Kind where
  | file | directory
deriving DecidableEq

structure Dev where
  major : ℕ
  minor : ℕ
deriving DecidableEq

/-- A row of a mount ledger. -/
structure Row where
  target : Text
  source : Text
  type : Kind
  dev : Dev
  inode : ℕ
  sha256 : Option Text
  role : Text
deriving DecidableEq

structure Marker where
  version : Text
  baseSha256 : Text
  stage : Text
  stageDbSha256 : Text
  mountLedger : Text
deriving DecidableEq

structure Ledger where
  stage : Text
  baseSha256 : Text
  mounts : List Row
deriving DecidableEq

def sha (value : Text) : Prop := (hexOf 64).accepts value = true

instance (value : Text) : Decidable (sha value) := inferInstanceAs (Decidable (_ = _))

/-- `[A-Za-z0-9_.-]` -/
def isName (c : Char) : Bool := isAlnum c || c = '_' || c = '.' || c = '-'

/-- An unescaped dot. -/
def anyChar : Regex Char := .cls fun _ => true

def stageShape : Regex Char :=
  .alt (.seq (.lit "/tmp/foxhole-ram-stage-".toList)
      (.seq (.rep 6 (.cls isName)) (.upTo 58 (.cls isName))))
    (.seq (.lit "/tmp/foxhole/ram-updates/candidates/candidate-".toList) (hexOf 32))

def stage (value : Text) : Prop := stageShape.accepts value = true

instance (value : Text) : Decidable (stage value) := inferInstanceAs (Decidable (_ = _))

def publicPaths : List Text :=
  ["/usr/share/foxhole".toList, "/usr/share/licenses/foxhole-openwrt-client".toList,
    "/www/luci-static/resources/foxhole".toList, "/www/luci-static/resources/view/foxhole".toList,
    "/www/foxhole-mobile".toList, "/usr/share/rpcd/ucode/foxhole.uc".toList,
    "/usr/share/rpcd/acl.d/luci-app-foxhole.json".toList,
    "/usr/share/luci/menu.d/luci-app-foxhole.json".toList, "/www/cgi-bin/foxhole".toList,
    "/www/foxhole.html".toList, "/lib/upgrade/keep.d/foxhole-openwrt-client".toList]

/-- `^/(usr/libexec|etc/init.d)/foxhole-[A-Za-z0-9_.-]+$` -/
def programShape : Regex Char :=
  .seq (.lit ['/']) (.seq (.alt (.lit "usr/libexec".toList)
      (.seq (.lit "etc/init".toList) (.seq anyChar (.lit ['d']))))
    (.seq (.lit "/foxhole-".toList) (.plus (.cls isName))))

/-- `^/usr/share/nftables.d/chain-pre/(input|forward)/3[01]-foxhole(-mobile|-inbound)?\.nft$` -/
def chainShape : Regex Char :=
  .seq (.seq (.lit "/usr/share/nftables".toList) (.seq anyChar (.lit "d/chain-pre/".toList)))
    (.seq (.alt (.lit "input".toList) (.lit "forward".toList))
      (.seq (.seq (.lit "/3".toList) (.seq (.cls fun c => c = '0' || c = '1')
          (.lit "-foxhole".toList)))
        (.seq (.opt (.alt (.lit "-mobile".toList) (.lit "-inbound".toList))) (.lit ".nft".toList))))

def publicPath (path : Text) : Prop :=
  path ∈ publicPaths ∨ programShape.accepts path = true ∨ chainShape.accepts path = true

instance (path : Text) : Decidable (publicPath path) := inferInstanceAs (Decidable (_ ∨ _))

def retainedTargets : List Text :=
  ["/usr/bin/openssl".toList, "/usr/lib/ucode/socket.so".toList,
    "/etc/init.d/foxhole-mobile".toList,
    "/lib/upgrade/keep.d/foxhole-openwrt-client".toList]

/-- `^/tmp/` and names and slashes -/
def sourceShape :
    Regex Char := .seq (.lit "/tmp/".toList) (.plus (.cls fun c => isName c || c = '/'))

/-- `/(\.|\.\.)(/|$)` is found nowhere -/
def noDots (value : Text) : Prop :=
  ∀ rest ∈ value.tails, ∀ dots ∈ [['/', '.'], ['/', '.', '.']],
    rest ≠ dots ∧ ¬ (dots ++ ['/']) <+: rest

instance (value : Text) : Decidable (noDots value) := inferInstanceAs (Decidable (∀ _ ∈ _, _))

def Row.Valid (stage : Text) (row : Row) : Prop :=
  1 ≤ row.inode ∧ row.source.length ≤ 240 ∧ sourceShape.accepts row.source = true ∧
    noDots row.source ∧
    (if row.type = .file then ∃ value ∈ row.sha256, sha value else row.sha256 = none) ∧
    if row.role = "base".toList then
      publicPath row.target ∧ row.source = stage ++ "/root".toList ++ row.target
    else row.role = "retained-adapter".toList ∧ row.target ∈ retainedTargets ∧ row.type = .file

/-- What `ledger` accepts for a marker. -/
structure Ledger.Valid (value : Ledger) (marker : Marker) : Prop where
  stageShape : RamSwitch.stage value.stage
  stage : value.stage = marker.stage
  base : sha value.baseSha256 ∧ value.baseSha256 = marker.baseSha256
  length : 1 ≤ value.mounts.length ∧ value.mounts.length ≤ 96
  targets : (value.mounts.map (·.target)).Nodup
  rows : ∀ row ∈ value.mounts, row.Valid value.stage
  nested : ∀ a ∈ value.mounts, ∀ b ∈ value.mounts, a.target ≠ b.target →
    ¬ (a.target ++ ['/']) <+: b.target

/-- The last component cut off. -/
def dirname (path : Text) : Text :=
  match (path.reverse.dropWhile (· ≠ '/')).tail.reverse with
  | [] => ['/']
  | parent => parent

/-- What a path leads to. -/
structure Inode where
  kind : Kind
  dev : Dev
  inode : ℕ
deriving DecidableEq

/-- What lies at the source of a bind. -/
structure Source where
  file : Inode
  sha256 : Text
  /-- the owner, the mode, the links of a file and the directories above allow its use -/
  guarded : Bool
deriving DecidableEq

structure Mount where
  file : Inode
  readonly : Bool
deriving DecidableEq

inductive Phase where
  | validating | preparing | prepared | quiesced | active | rolledBack | failedPrepare
  | recoveryRequired
deriving DecidableEq

/-- A target or a directory above one that the switch has made. -/
structure Created where
  path : Text
  type : Kind
deriving DecidableEq

/-- The boot descriptor before and after. -/
structure Bootstrap where
  oldRaw : Text
  newRaw : Text
deriving DecidableEq

structure Journal where
  phase : Phase
  unmounted : List Row
  mounted : List Row
  created : List Created
  quiesceStarted : Bool
  rpcStopped : Bool
  restarted : Bool
  previousMarker : Marker
  newMarker : Marker
  previousLedger : Ledger
  newLedger : Ledger
  bootstrap : Bootstrap
deriving DecidableEq

/-- A call succeeds, or is refused, or takes effect and is reported as a failure: a command that is
killed too late, a file that is made and not flushed. -/
inductive Outcome where
  | done | refused | late
deriving DecidableEq

structure Env where
  sources : Text → Option Source
  /-- what becomes of the `n`-th call -/
  outcome : ℕ → List Text → Outcome
  /-- `journal_valid` of the boot link -/
  journalValid : Bootstrap → Bool
  journalPath : Text

/-- The router's part of a switch. A bind goes onto a node of its own kind, so `tree` says what is
there with and without it. -/
structure World where
  /-- the journal in memory -/
  journal : Journal
  /-- its file -/
  saved : Journal
  /-- the mounts at a path, the topmost first -/
  mounts : Text → List Mount
  tree : List (Text × Kind)
  marker : Marker
  /-- boot.json -/
  boot : Text
  /-- the calls made, the last one first -/
  calls : List (List Text)

def World.lstat (w : World) (path : Text) : Option Kind := w.tree.lookup path

def World.bind (w : World) (target : Text) (ms : List Mount) : World :=
  { w with mounts := Function.update w.mounts target ms }

variable (env : Env)

def ask (argv : List Text) : Command Err World Outcome := do
  let w ← get
  modify fun w => { w with calls := argv :: w.calls }
  return env.outcome w.calls.length argv

/-- A command that does nothing to this part of the router. -/
def command (argv : List Text) : Command Err World Unit := do
  let out ← ask env argv
  ensure (out = .done) .ramSwitchValidationFailed

/-- A command that takes effect where it can, also when it is reported as a failure late. -/
def act (argv : List Text) (effect : World → Option World) : Command Err World Unit := do
  let out ← ask env argv
  ensure (out ≠ .refused) .ramSwitchValidationFailed
  let w ← get
  match effect w with
  | none => throw .ramSwitchValidationFailed
  | some w' => do
    modify fun _ => w'
    ensure (out ≠ .late) .ramSwitchValidationFailed

/-- A file is replaced. -/
def replace (path : Text) (g : World → World) : Command Err World Unit :=
  act env [path] fun w => some (g w)

def update (g : Journal → Journal) : Command Err World Unit :=
  modify fun w => { w with journal := g w.journal }

def saveJournal : Command Err World Unit :=
  replace env env.journalPath fun w => { w with saved := w.journal }

/-- `guard`, and what else is asked of the rest of the router -/
def check (name : String) : Command Err World Unit := command env [name.toList]

def initScript (name action : String) : Command Err World Unit :=
  command env [("/etc/init.d/" ++ name).toList, action.toList]

def stopServices : Command Err World Unit := do
  update fun j => { j with quiesceStarted := true }
  saveJournal env
  ["foxhole-inbound", "foxhole-history", "foxhole-mobile", "foxhole-runtime"].forM fun name =>
    initScript env name "stop"
  check env "wait_consumers"
  update fun j => { j with rpcStopped := true }
  saveJournal env
  initScript env "rpcd" "stop"
  check env "wait_consumers"
  update fun j => { j with phase := .quiesced }
  saveJournal env

def startServices : Command Err World Unit := do
  let w ← get
  onlyIf w.journal.rpcStopped (initScript env "rpcd" "start")
  onlyIf w.journal.quiesceStarted
    (["foxhole-runtime", "foxhole-mobile", "foxhole-history", "foxhole-inbound"].forM fun name =>
      initScript env name "start")

/-- The source is what the row says. -/
def Row.Describes (row : Row) (source : Source) : Prop :=
  source.file = ⟨row.type, row.dev, row.inode⟩ ∧ source.guarded = true ∧
    (row.type = .file → row.sha256 = some source.sha256)

instance (row : Row) (source : Source) : Decidable (row.Describes source) :=
  inferInstanceAs (Decidable (_ ∧ _))

def verifyMount (row : Row) (readonly : Bool) : Command Err World Unit := do
  let w ← get
  let some source := env.sources row.source | throw .ramSwitchValidationFailed
  let [mounted] := w.mounts row.target | throw .ramSwitchValidationFailed
  ensure (w.lstat (dirname row.target) = some .directory ∧ row.Describes source ∧
    mounted.file = source.file ∧ (readonly = true → mounted.readonly = true))
    .ramSwitchValidationFailed

/-- The source is mounted over a node of its own kind. -/
def World.mount (w : World) (source target : Text) : Option World :=
  match env.sources source with
  | none => none
  | some found =>
    if w.lstat target = some found.file.kind then
      some (w.bind target (⟨found.file, false⟩ :: w.mounts target))
    else none

def World.makeReadonly (w : World) (target : Text) : Option World :=
  match w.mounts target with
  | [] => none
  | top :: rest => some (w.bind target (⟨top.file, true⟩ :: rest))

def World.unmount (w : World) (target : Text) : Option World :=
  match w.mounts target with
  | [] => none
  | _ :: rest => some (w.bind target rest)

/-- `/bin/mount --bind` -/
def mountBind (source target : Text) : Command Err World Unit :=
  act env ["/bin/mount".toList, "--bind".toList, source, target] fun w => w.mount env source target

/-- `/bin/mount -o remount,bind,ro` -/
def remount (target : Text) : Command Err World Unit :=
  act env ["/bin/mount".toList, "-o".toList, "remount,bind,ro".toList, target]
    fun w => w.makeReadonly target

def umount (target : Text) : Command Err World Unit :=
  act env ["/bin/umount".toList, target] fun w => w.unmount target

def bind (source target : Text) : Command Err World Unit := do
  mountBind env source target
  remount env target

/-- The directories missing from `path` upwards, at most so many. -/
def missingFrom (w : World) : ℕ → Text → Option (List Text)
  | 0, path => if (w.lstat path).isSome then some [] else none
  | room + 1, path =>
    if (w.lstat path).isSome then some []
    else (missingFrom w room (dirname path)).map (path :: ·)

/-- `mkdir` and `write` of an empty file, entered into the journal -/
def make (path : Text) (type : Kind) : Command Err World Unit := do
  let w ← get
  ensure (w.lstat (dirname path) = some .directory ∧ w.lstat path = none) .ramSwitchValidationFailed
  act env ["create".toList, path] fun w => some { w with tree := (path, type) :: w.tree }
  update fun j => { j with created := j.created ++ [⟨path, type⟩] }
  saveJournal env

def absentTarget (path : Text) (source : Option Source) : Command Err World Unit := do
  let w ← get
  if (w.lstat path).isSome then return ()
  else do
    let some missing := missingFrom w 8 (dirname path) | throw .ramSwitchValidationFailed
    missing.reverse.forM fun directory => make env directory .directory
    let some found := source | throw .ramSwitchValidationFailed
    make env path found.file.kind

/-- The node of a row is there, and empty. -/
def Created.Removable (row : Created) (w : World) : Prop :=
  w.lstat row.path = some row.type ∧
    (row.type = .directory → ∀ x ∈ w.tree, dirname x.1 = row.path → x.1 = row.path)

instance (row : Created) (w : World) : Decidable (row.Removable w) :=
  inferInstanceAs (Decidable (_ ∧ _))

/-- `unlink` or `rmdir` -/
def remove (row : Created) : Command Err World Unit :=
  act env ["remove".toList, row.path] fun w =>
    if row.Removable w then some { w with tree := w.tree.filter fun x => x.1 ≠ row.path } else none

def markerPath : Text := "/tmp/foxhole-ram-active.json".toList

def bootPath : Text := "/etc/foxhole/ram-update/boot.json".toList

def restoreMarker : Command Err World Unit := do
  let w ← get
  ensure (w.marker = w.journal.previousMarker ∨ w.marker = w.journal.newMarker)
    .ramSwitchValidationFailed
  replace env markerPath fun w => { w with marker := w.journal.previousMarker }

/-- `commit` of the boot link. -/
def commitBootstrap (value : Bootstrap) : Command Err World Unit := do
  ensure (env.journalValid value = true) .updatePackageVerificationFailed
  let w ← get
  ensure (w.boot = value.oldRaw ∨ w.boot = value.newRaw) .updateStalePlan
  check env "bank"
  onlyIf (w.boot ≠ value.newRaw) (replace env bootPath fun w => { w with boot := value.newRaw })
  let w ← get
  ensure (w.boot = value.newRaw) .updatePackageVerificationFailed

/-- `restore` of the boot link. -/
def restoreBootstrap (value : Bootstrap) : Command Err World Unit := do
  ensure (env.journalValid value = true) .updatePackageVerificationFailed
  let w ← get
  ensure (w.boot = value.oldRaw ∨ w.boot = value.newRaw) .updateRecoveryRequired
  onlyIf (w.boot ≠ value.oldRaw) (replace env bootPath fun w => { w with boot := value.oldRaw })
  let w ← get
  ensure (w.boot = value.oldRaw) .updateRecoveryRequired

structure RollbackActions where
  remove : List Row
  restore : List Row

def rollbackActions (unmounted mounted : List Row) : RollbackActions :=
  ⟨mounted.reverse, unmounted.reverse⟩

def removeMount (row : Row) : Command Err World Unit := do
  verifyMount env row false
  umount env row.target
  update fun j => { j with mounted := j.mounted.filter fun item => item.target ≠ row.target }
  saveJournal env

def restoreMount (row : Row) : Command Err World Unit := do
  let w ← get
  ensure (w.mounts row.target = []) .ramSwitchValidationFailed
  bind env row.source row.target
  verifyMount env row true
  update fun j => { j with unmounted := j.unmounted.filter fun item => item.target ≠ row.target }
  saveJournal env

def removeCreated (row : Created) : Command Err World Unit := do
  let w ← get
  ensure (w.mounts row.path = []) .ramSwitchValidationFailed
  remove env row

def rollback : Command Err World Unit := do
  let w ← get
  onlyIf w.journal.restarted (stopServices env)
  let w ← get
  let actions := rollbackActions w.journal.unmounted w.journal.mounted
  actions.remove.forM (removeMount env)
  actions.restore.forM (restoreMount env)
  w.journal.created.reverse.forM (removeCreated env)
  update fun j => { j with created := [] }
  restoreMarker env
  restoreBootstrap env w.journal.bootstrap
  startServices env
  update fun j => { j with phase := .rolledBack }
  saveJournal env

def unmountOld (row : Row) : Command Err World Unit := do
  umount env row.target
  update fun j => { j with unmounted := j.unmounted ++ [row] }
  saveJournal env

def mountNew (row : Row) : Command Err World Unit := do
  let w ← get
  ensure (w.mounts row.target = []) .ramSwitchValidationFailed
  absentTarget env row.target (env.sources row.source)
  mountBind env row.source row.target
  update fun j => { j with mounted := j.mounted ++ [row] }
  saveJournal env
  remount env row.target
  verifyMount env row true

/-- `run` from the quiesce to the final guard. -/
def switchover : Command Err World Unit := do
  stopServices env
  check env "guard"
  let w ← get
  let j := w.journal
  ensure (w.marker = j.previousMarker) .ramSwitchValidationFailed
  j.previousLedger.mounts.forM fun row => verifyMount env row true
  j.previousLedger.mounts.forM (unmountOld env)
  j.newLedger.mounts.forM (mountNew env)
  check env "guard"
  check env "verify_payload"
  check env "stageDbSha256"
  replace env markerPath fun w => { w with marker := w.journal.newMarker }
  update fun j => { j with phase := .active }
  saveJournal env
  commitBootstrap env j.bootstrap
  check env "guard"
  update fun j => { j with restarted := true }
  saveJournal env
  startServices env
  check env "guard"

def failPrepare : Command Err World Unit := do
  update fun j => { j with phase := .failedPrepare }
  saveJournal env

/-- What `run` does with a failure. -/
def recover : Command Err World Unit := do
  let w ← get
  attempt (if w.journal.quiesceStarted = true then rollback env else failPrepare env) do
    update fun j => { j with phase := .recoveryRequired }
    attempt (saveJournal env) (pure ())

def run : Command Err World Unit :=
  attempt (switchover env) do
    recover env
    throw .ramSwitchFailed

end Foxhole.RamSwitch
