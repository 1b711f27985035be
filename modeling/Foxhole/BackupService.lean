import Foxhole.BackupModel

/-! The restore journal of backup-service.uc: its durable writes, and recovery after a crash. -/
namespace Foxhole.Backup
open Check Text Trace

/-- update-policy.json as `json()` returns it. -/
structure RawUpdatePolicy where
  schema : Field ℤ
  revision : Field ℤ
  enabled : Field Bool
  lastAttemptAtUnixMs : Field ℤ := .missing
deriving DecidableEq

def safeInt (n : ℤ) : Prop := 0 ≤ n ∧ n ≤ 9007199254740991

instance (n : ℤ) : Decidable (safeInt n) := by unfold safeInt; infer_instance

/-- `policy(value)` of update-model.uc: the revision, and the record with it. -/
def updatePolicy (raw : Option RawUpdatePolicy) : Except Err (ℤ × RawUpdatePolicy) :=
  match raw with
  | none => .ok (0, ⟨.value 1, .value 0, .value false, .missing⟩)
  | some raw =>
    match raw.revision, raw.enabled with
    | .value revision, .value _ => do
      require (raw.schema = .value 1 ∧ safeInt revision ∧ revision < 0x7fffffff)
        .backupRecoveryRequired
      require (optional raw.lastAttemptAtUnixMs (fun n => safeInt n) = true) .backupRecoveryRequired
      return (revision, raw)
    | _, _ => throw .backupRecoveryRequired

/-- The UCI library: the panel section of a configuration, and a configuration with another panel
section staged into it. -/
structure Uci where
  panel : Text → Panel
  stage : Text → Panel → Option Text
  panel_stage : ∀ {config panel' config'}, stage config panel' = some config' →
    panel config' = panel'

/-- `standalone_setting()` -/
def Uci.access (uci : Uci) (config : Text) : Bool := (uci.panel config).access

/-- The three files a restore replaces. -/
structure Files where
  state : RawState
  config : Text
  policy : Option RawUpdatePolicy
deriving DecidableEq

inductive Phase where
  | prepared | applying | stateCommitting | committed | cancelled | recoveryRequired
deriving DecidableEq

def Phase.terminal (phase : Phase) : Bool := phase = .committed || phase = .cancelled

/-- journal.json and the images beside it. Digests stand for what they are taken of. -/
structure Journal where
  id : Text
  phase : Phase
  before : Files
  after : Files
  beforeRevision : ℕ
  afterRevision : ℕ
  beforeWithoutStop : State
  afterWithoutStop : State
deriving DecidableEq

/-- The files of the RPC layer with the two others a restore replaces and its journal. -/
structure Router where
  disk : Disk
  config : Text
  policy : Option RawUpdatePolicy
  journal : Option Journal
deriving DecidableEq

def Router.files (router : Router) : Files := ⟨router.disk.state, router.config, router.policy⟩

/-- What `prepare_job` asks of the rest of the router. -/
structure Setting where
  authorized : Bool
  /-- `package_jobs_idle()` returns -/
  idle : Bool
  /-- there is room for the images -/
  space : Bool

/-- A journal that is not settled yet. -/
def pending (router : Router) : Bool := router.journal.any fun journal => !journal.phase.terminal

/-- `state()` -/
def liveState (env : Env) (router : Router) : Except Err State :=
  match Model.validateState env router.disk.state with
  | .ok state => .ok state
  | .error _ => .error .backupRecoveryRequired

/-- The live revision, when the caller expects it. -/
def expectedRevision (expected : Field ℤ) (live : State) : Except Err Unit :=
  match expected with
  | .value n => do
    require (0 ≤ n ∧ n < 0x7ffffffe) .revisionConflict
    require ((live.revision : ℤ) = n) .revisionConflict
  | _ => throw .revisionConflict

def stageConfig (uci : Uci) (config : Text) (panel : Panel) : Except Err Text :=
  match uci.stage config panel with
  | some config => .ok config
  | none => .error .backupRecoveryRequired

/-- The journal that `prepare_job` publishes. -/
def prepareJob (env : Env) (js : Json) (uci : Uci) (setting : Setting) (document : Document)
    (expected : Field ℤ) (id : Text) (router : Router) : Except Err Journal := do
  require (setting.authorized = true) .unauthorized
  require (pending router = false) .backupBusy
  require (setting.idle = true) .backupBusy
  let live ← liveState env router
  expectedRevision expected live
  let value ← candidate env js document live router.disk.mobile
  require (panelFits (uci.panel router.config) = true) .backupInvalid
  let (revision, current) ← updatePolicy router.policy
  require (revision + 1 < 0x7fffffff) .backupRecoveryRequired
  require (setting.space = true) .backupNoSpace
  let config ← stageConfig uci router.config value.panel
  let policy := { current with enabled := .value value.enabled, revision := .value (revision + 1) }
  return {
    id
    phase := .prepared
    before := router.files
    after := ⟨value.state.raw, config, some policy⟩
    beforeRevision := live.revision
    afterRevision := value.state.revision
    beforeWithoutStop := withoutStop live
    afterWithoutStop := withoutStop value.state }

/-- `publish(value)` with the phase set. -/
def Router.publish (router : Router) (journal : Journal) (phase : Phase) : Router :=
  { router with journal := some { journal with phase } }

/-- The durable writes of a restore. -/
inductive Write where
  | publish (phase : Phase)
  | config | policy | state
deriving DecidableEq

/-- The writes of `restore_backup` in their order, from the journal of `prepare_job` on. -/
def restoreWrites : List Write :=
  [.publish .prepared, .publish .applying, .config, .policy, .publish .stateCommitting, .state,
    .publish .committed]

def Router.write (router : Router) (state : RawState) : Router :=
  { router with disk := { router.disk with state } }

def Write.perform (journal : Journal) (router : Router) : Write → Router
  | .publish phase => router.publish journal phase
  | .config => { router with config := journal.after.config }
  | .policy => { router with policy := journal.after.policy }
  | .state => router.write journal.after.state

/-- The router after the first `count` writes of the restore. -/
def crash (journal : Journal) (router : Router) (count : ℕ) : Router :=
  (restoreWrites.take count).foldl (Write.perform journal) router

/-- `rollback_product_files`, with the flag whether it came through. -/
def rollbackProductFiles (journal : Journal) (router : Router) : Router × Bool :=
  if router.config = journal.before.config ∨ router.config = journal.after.config then
    let router := { router with config := journal.before.config }
    if router.policy = journal.before.policy ∨ router.policy = journal.after.policy then
      ({ router with policy := journal.before.policy }, true)
    else (router, false)
  else (router, false)

def productsAfter (journal : Journal) (router : Router) : Bool :=
  router.config = journal.after.config && router.policy = journal.after.policy

/-- The live state is the image, or what Stop makes of it. -/
def afterImage (journal : Journal) (router : Router) (live : State) : Bool :=
  router.disk.state = journal.after.state ||
    (live.activeServerId = none && journal.afterRevision < live.revision &&
      withoutStop live = journal.afterWithoutStop && productsAfter journal router)

def beforeImage (journal : Journal) (router : Router) (live : State) : Bool :=
  router.disk.state = journal.before.state ||
    (journal.beforeRevision < live.revision && live.activeServerId = none &&
      withoutStop live = journal.beforeWithoutStop)

/-- Undo the product files and cancel, or give up. -/
def cancel (journal : Journal) (router : Router) : Router :=
  let (router, done) := rollbackProductFiles journal router
  router.publish journal (if done then .cancelled else .recoveryRequired)

/-- `recover_locked` on a journal in phase PREPARED, APPLYING or STATE_COMMITTING. -/
def settle (env : Env) (journal : Journal) (router : Router) : Router :=
  match Model.validateState env router.disk.state with
  | .error _ => router.publish journal .recoveryRequired
  | .ok live =>
    if journal.phase = .prepared ∨ journal.phase = .applying then cancel journal router
    else if afterImage journal router live then
      router.publish journal
        (if productsAfter journal router then .committed else .recoveryRequired)
    else if beforeImage journal router live then cancel journal router
    else router.publish journal .recoveryRequired

def recover (env : Env) (router : Router) : Router :=
  match router.journal with
  | none => router
  | some journal =>
    if journal.phase.terminal ∨ journal.phase = .recoveryRequired then router
    else settle env journal router

/-- `revocation_revision_allowed(expected, current)` -/
def revocationRevisionAllowed (router : Router) (expected : Field ℤ) (current : State) : Bool :=
  match router.journal, expected with
  | some journal, .value n => 0 ≤ n &&
      (journal.phase = .stateCommitting || journal.phase = .committed) &&
      n = journal.beforeRevision && current.revision = journal.afterRevision &&
      router.disk.state = journal.after.state
  | _, _ => false

/-! The calls that `call()` lets through while a restore is pending. -/

/-- The request names no call that `guard()` refuses. -/
def admitted : Rpc.Request → Bool
  | .stopServer _ | .deleteClient _ | .clientAccess _ false | .pairRevoke _ | .setPin => true
  | _ => false

/-- The revision a revoking call expects. -/
def expected : Rpc.Request → Field ℤ
  | .stopServer revision => revision
  | .deleteClient args => args.revision
  | .clientAccess args _ => args.revision
  | _ => .missing

/-- An admitted call that returns, under the configuration and the journal as they are. -/
inductive Call (env : Env) (uci : Uci) (intentDigest : Mobile.Intent → Text) :
    Router → Rpc.Request × Outside → Router → Prop
  | call {router : Router} {request : Rpc.Request} {out : Outside} {disk : Disk} :
      admitted request = true →
      out.standalone = uci.access router.config →
      (∀ current, Rpc.stateRecord env out router.disk = .ok current →
        out.revisionAllowed = revocationRevisionAllowed router (expected request) current) →
      Rpc.perform env intentDigest out router.disk request = .ok disk →
      Call env uci intentDigest router (request, out) { router with disk }

section
variable {env : Env} {js : Json} {uci : Uci} {setting : Setting} {document : Document}
  {expected : Field ℤ} {id : Text} {router : Router} {journal : Journal} {state live : State}

/-- What a prepared journal says of the live state and of the state it would write. -/
structure Prepared (env : Env) (uci : Uci) (router : Router) (live after : State)
    (journal : Journal) : Prop where
  live_valid : Model.validateState env router.disk.state = .ok live
  after_ok : after.Ok env
  after_revision : after.revision = live.revision + 1
  after_access : after.settings.standaloneAccess = uci.access journal.after.config
  before_files : journal.before = router.files
  after_state : journal.after.state = after.raw
  beforeRevision : journal.beforeRevision = live.revision
  afterRevision : journal.afterRevision = after.revision
  beforeWithoutStop : journal.beforeWithoutStop = withoutStop live
  afterWithoutStop : journal.afterWithoutStop = withoutStop after

theorem prepareJob_ok
    (h : prepareJob env js uci setting document expected id router = .ok journal) :
    ∃ live after, Prepared env uci router live after journal := by
  simp only [prepareJob, bind_eq_ok, pure_eq_ok] at h
  obtain ⟨-, -, -, -, -, -, live, hlive, -, -, value, hvalue, -, -, ⟨revision, current⟩, -, -, -, -,
    -, config, hconfig, rfl⟩ := h
  have hv : Model.validateState env router.disk.state = .ok live := by
    unfold liveState at hlive
    split at hlive <;> simp_all
  have hok := Model.validateState_ok hv
  have hstage : uci.stage router.config value.panel = some config := by
    unfold stageConfig at hconfig
    split at hconfig <;> simp_all
  refine ⟨live, value.state, ?_⟩
  exact {
    live_valid := hv
    after_ok := candidate_state_ok hok hvalue
    after_revision := candidate_revision hok hvalue
    after_access := by rw [candidate_access hok hvalue, Uci.access, uci.panel_stage hstage]
    before_files := rfl
    after_state := rfl
    beforeRevision := rfl
    afterRevision := rfl
    beforeWithoutStop := rfl
    afterWithoutStop := rfl }

/-! What recovery does, phase by phase. -/

/-- Each product file is the one from before or the one from after. -/
def Mixed (journal : Journal) (router : Router) : Prop :=
  (router.config = journal.before.config ∨ router.config = journal.after.config) ∧
  (router.policy = journal.before.policy ∨ router.policy = journal.after.policy)

/-- The router with the product files from before. -/
def rolledBack (journal : Journal) (router : Router) : Router :=
  { router with config := journal.before.config, policy := journal.before.policy }

theorem cancel_mixed (h : Mixed journal router) :
    cancel journal router = (rolledBack journal router).publish journal .cancelled := by
  simp [cancel, rollbackProductFiles, h.1, h.2, rolledBack]

theorem settle_early (h : Model.validateState env router.disk.state = .ok state)
    (hphase : journal.phase = .prepared ∨ journal.phase = .applying) (hm : Mixed journal router) :
    settle env journal router = (rolledBack journal router).publish journal .cancelled := by
  simp [settle, h, hphase, cancel_mixed hm]

theorem settle_after (h : Model.validateState env router.disk.state = .ok state)
    (hphase : journal.phase = .stateCommitting) (hp : productsAfter journal router = true)
    (ha : afterImage journal router state = true) :
    settle env journal router = router.publish journal .committed := by
  simp [settle, h, hphase, hp, ha]

theorem settle_before (h : Model.validateState env router.disk.state = .ok state)
    (hphase : journal.phase = .stateCommitting) (hm : Mixed journal router)
    (ha : afterImage journal router state = false) (hb : beforeImage journal router state = true) :
    settle env journal router = (rolledBack journal router).publish journal .cancelled := by
  simp [settle, h, hphase, ha, hb, cancel_mixed hm]

theorem settle_lost (h : Model.validateState env router.disk.state = .ok state)
    (hphase : journal.phase = .stateCommitting)
    (ha : afterImage journal router state = false) (hb : beforeImage journal router state = false) :
    settle env journal router = router.publish journal .recoveryRequired := by
  simp [settle, h, hphase, ha, hb]

end
end Foxhole.Backup
