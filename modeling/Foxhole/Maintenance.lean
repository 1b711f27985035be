import Foxhole.BackupService
import Foxhole.EngineModel
import Mathlib.Logic.Function.Basic

/-! Engine jobs, update jobs and the restore worker of a FLASH router, step by step: a step is what
happens under one lock, or one unlocked write. Checks that only refuse (principals, revisions,
budgets, deadlines) are not modelled. -/
namespace Foxhole.Maintenance
open Check Text Backup

/-- The states of engine-job.json and update-job.json. -/
inductive JobState where
  | queued | verifying | downloading | installing | checking | reconnecting
  | succeeded | failed | recoveryRequired
deriving DecidableEq

/-- `TERMINAL` -/
def JobState.terminal : JobState → Bool
  | .succeeded | .failed | .recoveryRequired => true
  | _ => false

/-- The states a worker moves through. -/
def JobState.working (state : JobState) : Bool := !state.terminal && state ≠ .queued

/-- What `snapshot_context` reads outside state.json and engine-intent.json. -/
structure Around where
  routerId : Text
  architecture : Text
  bootId : Text
  worldSha256 : Text
  catalogSha256 : Text
  /-- the digest of a server with the running generation -/
  generation : Server → Option Text
  legacyProtocols : List Text
  flashAvailableBytes : ℤ
  ramAvailableBytes : ℤ

/-- `snapshot_context(state)` -/
def snapshotContext (env : Env) (around : Around) (state : State) (intent : ℕ) : Engine.Context :=
  let active := state.servers.find? fun server => some server.key = state.activeServerId
  { routerId := around.routerId
    architecture := around.architecture
    bootId := around.bootId
    worldSha256 := around.worldSha256
    catalogSha256 := around.catalogSha256
    activeGeneration := active.bind around.generation
    activeConfigSha256 := active.map fun server => env.sha256 (server.config.value?.getD [])
    stopIntent := intent
    activeEngineId := active.bind fun server =>
      if server.engine = Model.engineCore then server.protocol.value? else none
    activeProfileId := state.activeServerId
    legacyProtocols := around.legacyProtocols
    flashAvailableBytes := around.flashAvailableBytes
    ramAvailableBytes := around.ramAvailableBytes }

/-- `restart_allowed(bound, context)` -/
def restartAllowed (bound : Engine.Binding) (context : Engine.Context) : Prop :=
  bound.routerId = context.routerId ∧ bound.bootId = context.bootId ∧
  bound.activeProfileId = context.activeProfileId ∧
  bound.activeConfigSha256 = context.activeConfigSha256 ∧ bound.stopIntent = context.stopIntent

instance (bound : Engine.Binding) (context : Engine.Context) :
    Decidable (restartAllowed bound context) := by unfold restartAllowed; infer_instance

/-- A plan of engine-service.uc or of update-service.uc, as far as the workers read it. -/
structure Plan where
  planId : Text
  binding : Engine.Binding
  impact : Engine.Impact
deriving DecidableEq

structure EngineJob where
  jobId : Text
  plan : Plan
  state : JobState := .queued
  mutationStarted : Bool := false
deriving DecidableEq

inductive Operation where
  | check | apply
deriving DecidableEq

structure UpdateJob where
  jobId : Text
  operation : Operation
  automatic : Bool
  policyRevision : ℤ
  plan : Option Plan := none
  state : JobState := .queued
  mutationStarted : Bool := false
  recoveryAttempted : Bool := false
deriving DecidableEq

/-- `active(job)` -/
def active (state : Option JobState) : Bool := state.any fun state => !state.terminal

/-- `blocked(job)` of update-service.uc, `busy(job)` of engine-service.uc -/
def blocked (state : Option JobState) : Bool :=
  active state || state = some .recoveryRequired

/-- The test of `package_jobs_idle` on one job. -/
def idle (state : Option JobState) : Bool :=
  state.all fun state => state = .succeeded || state = .failed

/-- Where the update worker `run(id)` stands. -/
inductive Pc where
  /-- in `perform_check` -/
  | checking
  /-- behind the check, which was automatic -/
  | checked
  /-- before the transaction of `perform_apply` -/
  | applying
  /-- inside it -/
  | locked
  /-- something threw; the transaction that records it is still to come -/
  | failing
  /-- RECOVERY_REQUIRED is recorded; `attempt_recovery` is still to come -/
  | caught
  /-- inside `attempt_recovery` -/
  | recovering
  /-- `attempt_recovery` threw -/
  | unrecovered
deriving DecidableEq

/-- An update worker with its own copy of the job. -/
structure Worker where
  pc : Pc
  job : UpdateJob
deriving DecidableEq

/-- Who holds engine.lock over several steps. A restore counts what it has published and written. -/
inductive Holder where
  | engineRun | engineRecover
  | update (id : Text)
  | restore (done : ℕ)
deriving DecidableEq

/-- The callers of `backup_service.guard()` that take engine.lock only later. -/
inductive Caller where
  | updateSettings | updateCheck | updatePlan | updateApply | updateTick
  | updateRun (id : Text)
  | engineRun (id : Text)
  | engineRecover (id : Text)
deriving DecidableEq

/-- What the journal of a restore keeps beside its files: `stopIntentBefore` and `security`. -/
structure Marks where
  stopIntentBefore : ℕ
  mobile : List Mobile.Phone
  pairs : Pairing.Record
deriving DecidableEq

structure World where
  router : Router
  /-- the revision of engine-intent.json -/
  intent : ℕ
  /-- the marks of `router.journal` -/
  marks : Marks
  engine : Option EngineJob := none
  update : Option UpdateJob := none
  workers : Text → Option Worker := fun _ => none
  holder : Option Holder := none
  passed : List Caller := []
  /-- the plans made so far -/
  plans : List Plan := []
  /-- the update jobs whose process has been launched and has not begun -/
  launched : List Text := []
  /-- the job identifiers drawn so far -/
  issued : List Text := []

def World.engineState (w : World) : Option JobState := w.engine.map (·.state)

def World.updateState (w : World) : Option JobState := w.update.map (·.state)

/-- `guard()` fails. -/
def World.restoring (w : World) : Bool := pending w.router

/-- `package_jobs_idle()` returns. -/
def World.jobsIdle (w : World) : Bool := idle w.engineState && idle w.updateState

/-- The marks that a restore prepared now would carry. -/
def World.marksNow (w : World) : Marks := ⟨w.intent, w.router.disk.mobile, w.router.disk.pairs⟩

/-- A router where no job was ever created. -/
def World.start (router : Router) (intent : ℕ) : World where
  router := { router with journal := none }
  intent := intent
  marks := ⟨0, [], Pairing.defaults⟩

/-- `restart_allowed` or the comparison with a plan's binding read the context as it is now. -/
def World.Context (env : Env) (w : World) (around : Around) (context : Engine.Context) : Prop :=
  ∃ state, Model.validateState env w.router.disk.state = .ok state ∧
    context = snapshotContext env around state w.intent

/-- The plan was made for the router as it is now. -/
def World.Bound (env : Env) (w : World) (plan : Plan) : Prop :=
  ∃ around context, w.Context env around context ∧ plan.binding = context.binding

/-- A plan may start the runtime: its impact asks for it and `restart_allowed` agrees. -/
def World.MayStart (env : Env) (w : World) (plan : Plan) : Prop :=
  plan.impact = .reconnectRequired ∧
  ∃ around context, w.Context env around context ∧ restartAllowed plan.binding context

/-- `auto_authorized(job, policy())` -/
def autoAuthorized (job : UpdateJob) (policy : Option RawUpdatePolicy) : Prop :=
  job.automatic = true ∧
  ∃ record, updatePolicy policy = .ok (job.policyRevision, record) ∧ record.enabled = .value true

/-- `authorized(job)`, where a job that is not automatic asks for its principal. -/
def authorized (job : UpdateJob) (policy : Option RawUpdatePolicy) : Prop :=
  job.automatic = true → autoAuthorized job policy

def World.setEngine (w : World) (job : EngineJob) : World := { w with engine := some job }

/-- A new update job is stored. -/
def World.create (w : World) (job : UpdateJob) : World :=
  { w with update := some job, issued := job.jobId :: w.issued }

/-- `launch(job)`: a process for the job is on its way. -/
def World.launch (w : World) (id : Text) : World := { w with launched := id :: w.launched }

/-- The worker `id` goes on with `worker`. -/
def World.goOn (w : World) (id : Text) (worker : Worker) : World :=
  { w with workers := Function.update w.workers id (some worker) }

/-- `save_job`, with the worker's own copy. -/
def World.save (w : World) (id : Text) (worker : Worker) : World :=
  { w.goOn id worker with update := some worker.job }

/-- The process of worker `id` ends. -/
def World.exit (w : World) (id : Text) : World :=
  { w with workers := Function.update w.workers id none }

def World.hold (w : World) (holder : Option Holder) : World := { w with holder }

def World.pass (w : World) (caller : Caller) : World := { w with passed := w.passed.erase caller }

inductive EngineAct where
  | plan (plan : Plan)
  | apply (id : Text) (plan : Plan)
  | launchFailed (id : Text)
  | reconcile
  | beginRun (id : Text)
  | progress (state : JobState) (mutated : Bool)
  | start
  | succeed
  | fail (stopped : Bool)
  | recoverBegin (id : Text)
  | recoverEnd (restored : Bool)
  | die

/-- `plan`, `apply`, `reconcile`, `run` and `recover` of engine-service.uc. -/
inductive EngineStep (env : Env) : World → EngineAct → World → Prop
  /-- without a lock -/
  | plan {w : World} {plan : Plan} : w.restoring = false → blocked w.updateState = false →
      blocked w.engineState = false → w.Bound env plan →
      EngineStep env w (.plan plan) { w with plans := plan :: w.plans }
  /-- `guard_mutation` is inside the lock -/
  | apply {w : World} {id : Text} {plan : Plan} : w.holder = none → w.restoring = false →
      blocked w.updateState = false → blocked w.engineState = false → plan ∈ w.plans →
      w.Bound env plan → EngineStep env w (.apply id plan) (w.setEngine { jobId := id, plan })
  | launchFailed {w : World} {job : EngineJob} : w.holder = none → w.engine = some job →
      job.state = .queued →
      EngineStep env w (.launchFailed job.jobId) (w.setEngine { job with state := .failed })
  | reconcile {w : World} {job : EngineJob} : w.holder = none → w.engine = some job →
      idle (some job.state) = false →
      EngineStep env w .reconcile (w.setEngine { job with state := .recoveryRequired })
  | beginRun {w : World} {job : EngineJob} : .engineRun job.jobId ∈ w.passed → w.holder = none →
      blocked w.updateState = false → w.engine = some job → job.state = .queued →
      EngineStep env w (.beginRun job.jobId)
        (((w.pass (.engineRun job.jobId)).setEngine { job with state := .verifying }).hold
          (some .engineRun))
  | progress {w : World} {job : EngineJob} {state : JobState} {mutated : Bool} :
      w.holder = some .engineRun → w.engine = some job → state.working = true →
      EngineStep env w (.progress state mutated)
        (w.setEngine { job with state := state, mutationStarted := job.mutationStarted || mutated })
  /-- `start_if_allowed`, under state.lock -/
  | start {w : World} {job : EngineJob} :
      w.holder = some .engineRun ∨ w.holder = some .engineRecover → w.engine = some job →
      w.MayStart env job.plan → EngineStep env w .start w
  | succeed {w : World} {job : EngineJob} : w.holder = some .engineRun → w.engine = some job →
      EngineStep env w .succeed ((w.setEngine { job with state := .succeeded }).hold none)
  | fail {w : World} {job : EngineJob} {stopped : Bool} : w.holder = some .engineRun →
      w.engine = some job →
      EngineStep env w (.fail stopped)
        ((w.setEngine { job with
          state := if job.mutationStarted || stopped then .recoveryRequired
            else .failed }).hold none)
  | recoverBegin {w : World} {job : EngineJob} : .engineRecover job.jobId ∈ w.passed →
      w.holder = none → w.engine = some job → job.state = .recoveryRequired →
      EngineStep env w (.recoverBegin job.jobId)
        ((w.pass (.engineRecover job.jobId)).hold (some .engineRecover))
  | recoverEnd {w : World} {job : EngineJob} {restored : Bool} : w.holder = some .engineRecover →
      w.engine = some job →
      EngineStep env w (.recoverEnd restored)
        ((w.setEngine { job with
          state := if restored then .failed else .recoveryRequired }).hold none)
  | die {w : World} : w.holder = some .engineRun ∨ w.holder = some .engineRecover →
      EngineStep env w .die (w.hold none)

inductive UpdateAct where
  | settings (enabled : Bool)
  | check (id : Text)
  | tick (id : Text) (wall : ℤ)
  | plan (plan : Plan)
  | apply (id : Text) (plan : Plan)
  | launchFailed (id : Text)
  | reconcile

/-- The RPC calls and `tick` of update-service.uc: `guard()` comes before the lock. -/
inductive UpdateStep (env : Env) : World → UpdateAct → World → Prop
  | settings {w : World} {enabled : Bool} {revision : ℤ} {record : RawUpdatePolicy} :
      .updateSettings ∈ w.passed → w.holder = none →
      updatePolicy w.router.policy = .ok (revision, record) →
      UpdateStep env w (.settings enabled) { w.pass .updateSettings with router := { w.router with
        policy := some
          { record with enabled := .value enabled, revision := .value (revision + 1) } } }
  | check {w : World} {id : Text} {revision : ℤ} {record : RawUpdatePolicy} :
      .updateCheck ∈ w.passed → w.holder = none → blocked w.updateState = false →
      blocked w.engineState = false → id ∉ w.issued →
      updatePolicy w.router.policy = .ok (revision, record) →
      UpdateStep env w (.check id) (((w.pass .updateCheck).create
        { jobId := id, operation := .check, automatic := false,
          policyRevision := revision }).launch id)
  | tick {w : World} {id : Text} {wall revision : ℤ} {record : RawUpdatePolicy} :
      .updateTick ∈ w.passed → w.holder = none → blocked w.updateState = false →
      blocked w.engineState = false → id ∉ w.issued →
      updatePolicy w.router.policy = .ok (revision, record) → record.enabled = .value true →
      UpdateStep env w (.tick id wall) ((({ w.pass .updateTick with router := { w.router with
        policy := some { record with lastAttemptAtUnixMs := .value wall } } }).create
        { jobId := id, operation := .check, automatic := true,
          policyRevision := revision }).launch id)
  | plan {w : World} {plan : Plan} : .updatePlan ∈ w.passed → w.holder = none →
      blocked w.updateState = false → blocked w.engineState = false → w.Bound env plan →
      UpdateStep env w (.plan plan) { w.pass .updatePlan with plans := plan :: w.plans }
  | apply {w : World} {id : Text} {plan : Plan} {revision : ℤ} {record : RawUpdatePolicy} :
      .updateApply ∈ w.passed → w.holder = none → blocked w.updateState = false →
      blocked w.engineState = false → id ∉ w.issued → plan ∈ w.plans → w.Bound env plan →
      updatePolicy w.router.policy = .ok (revision, record) →
      UpdateStep env w (.apply id plan) (((w.pass .updateApply).create
        { jobId := id, operation := .apply, automatic := false, policyRevision := revision,
          plan := some plan }).launch id)
  | launchFailed {w : World} {job : UpdateJob} : w.holder = none → job.jobId ∈ w.launched →
      w.update = some job → job.state = .queued →
      UpdateStep env w (.launchFailed job.jobId) { w with
        update := some { job with state := .failed }
        launched := w.launched.filter (· ≠ job.jobId) }
  | reconcile {w : World} {job : UpdateJob} : w.holder = none → w.update = some job →
      job.state.terminal = false → w.workers job.jobId = none →
      UpdateStep env w .reconcile { w with update := some { job with
        state := if job.mutationStarted then .recoveryRequired else .failed } }

inductive WorkerAct where
  | beginRun
  | progress (state : JobState)
  | checked
  | convert (id : Text) (plan : Plan)
  | leave
  | lock
  | work (state : JobState)
  | mutate
  | start
  | succeed
  | fails
  | records
  | recoverBegin
  | recoverEnd
  | giveUp
  | die

/-- Where a worker begins. -/
def Operation.pc : Operation → Pc
  | .check => .checking
  | .apply => .applying

/-- The automatic apply that an automatic check becomes. -/
def UpdateJob.converted (job : UpdateJob) (id : Text) (plan : Plan) : UpdateJob where
  jobId := id
  operation := .apply
  automatic := true
  policyRevision := job.policyRevision
  plan := some plan

/-- What becomes of a job when something throws. -/
def UpdateJob.failed (job : UpdateJob) : UpdateJob :=
  { job with state := if job.mutationStarted then .recoveryRequired else .failed }

/-- `run(id)` of update-service.uc. -/
inductive WorkerStep (env : Env) (id : Text) : World → WorkerAct → World → Prop
  | beginRun {w : World} {job : UpdateJob} : .updateRun id ∈ w.passed → id ∈ w.launched →
      w.holder = none → w.update = some job → job.jobId = id → job.state = .queued →
      WorkerStep env id w .beginRun
        ({ w.pass (.updateRun id) with launched := w.launched.filter (· ≠ id) }.save id
          ⟨job.operation.pc, { job with state := .verifying }⟩)
  /-- `perform_check` writes its progress without a lock -/
  | progress {w : World} {job : UpdateJob} {state : JobState} :
      w.workers id = some ⟨.checking, job⟩ → state.working = true →
      WorkerStep env id w (.progress state) (w.save id ⟨.checking, { job with state := state }⟩)
  | checked {w : World} {job : UpdateJob} : w.workers id = some ⟨.checking, job⟩ →
      w.holder = none → authorized job w.router.policy →
      WorkerStep env id w .checked (w.save id ⟨.checked, { job with state := .succeeded }⟩)
  /-- `auto_conversion_allowed` asks for the engine job, not for the restore journal -/
  | convert {w : World} {job stored : UpdateJob} {id' : Text} {plan : Plan} :
      w.workers id = some ⟨.checked, job⟩ → w.holder = none → w.update = some stored →
      stored.jobId = id → stored.operation = .check → stored.state = .succeeded →
      stored.automatic = true → autoAuthorized job w.router.policy →
      blocked w.engineState = false → w.Bound env plan → id' ∉ w.issued →
      WorkerStep env id w (.convert id' plan)
        ((({ w with plans := plan :: w.plans }.create (job.converted id' plan)).exit id).goOn id'
          ⟨.applying, job.converted id' plan⟩)
  | leave {w : World} {job : UpdateJob} : w.workers id = some ⟨.checked, job⟩ →
      WorkerStep env id w .leave (w.exit id)
  | lock {w : World} {job : UpdateJob} {plan : Plan} : w.workers id = some ⟨.applying, job⟩ →
      w.holder = none → blocked w.engineState = false → authorized job w.router.policy →
      job.plan = some plan → w.Bound env plan →
      WorkerStep env id w .lock
        ((w.save id ⟨.locked, { job with state := .verifying }⟩).hold (some (.update id)))
  | work {w : World} {pc : Pc} {job : UpdateJob} {state : JobState} :
      w.workers id = some ⟨pc, job⟩ → pc = .locked ∨ pc = .recovering → state.working = true →
      WorkerStep env id w (.work state) (w.save id ⟨pc, { job with state := state }⟩)
  /-- `begin_mutation` -/
  | mutate {w : World} {job : UpdateJob} {plan : Plan} : w.workers id = some ⟨.locked, job⟩ →
      authorized job w.router.policy → job.plan = some plan → w.Bound env plan →
      WorkerStep env id w .mutate
        (w.save id ⟨.locked, { job with state := .installing, mutationStarted := true }⟩)
  /-- `restart(job)` -/
  | start {w : World} {pc : Pc} {job : UpdateJob} {plan : Plan} :
      w.workers id = some ⟨pc, job⟩ → pc = .locked ∨ pc = .recovering → job.plan = some plan →
      w.MayStart env plan → WorkerStep env id w .start w
  /-- `terminal(job, 'SUCCEEDED')` -/
  | succeed {w : World} {job : UpdateJob} : w.workers id = some ⟨.locked, job⟩ →
      WorkerStep env id w .succeed
        (({ w with update := some { job with state := .succeeded } }.exit id).hold none)
  | fails {w : World} {pc : Pc} {job : UpdateJob} : w.workers id = some ⟨pc, job⟩ →
      pc = .checking ∨ pc = .checked ∨ pc = .applying →
      WorkerStep env id w .fails (w.goOn id ⟨.failing, job⟩)
  | failsLocked {w : World} {job : UpdateJob} : w.workers id = some ⟨.locked, job⟩ →
      WorkerStep env id w .fails ((w.goOn id ⟨.failing, job⟩).hold none)
  | failsCaught {w : World} {job : UpdateJob} : w.workers id = some ⟨.caught, job⟩ →
      job.mutationStarted = true →
      WorkerStep env id w .fails (w.goOn id ⟨.unrecovered, job⟩)
  | failsRecovering {w : World} {job : UpdateJob} : w.workers id = some ⟨.recovering, job⟩ →
      WorkerStep env id w .fails ((w.goOn id ⟨.unrecovered, job⟩).hold none)
  /-- the transaction of the catch block, where the stored job is still the worker's -/
  | records {w : World} {job stored : UpdateJob} : w.workers id = some ⟨.failing, job⟩ →
      w.holder = none → w.update = some stored → stored.jobId = job.jobId →
      WorkerStep env id w .records (w.save id ⟨.caught, job.failed⟩)
  | recordsNothing {w : World} {job : UpdateJob} : w.workers id = some ⟨.failing, job⟩ →
      w.holder = none → (∀ stored, w.update = some stored → stored.jobId ≠ job.jobId) →
      WorkerStep env id w .records (w.goOn id ⟨.caught, job⟩)
  /-- `attempt_recovery` -/
  | recoverBegin {w : World} {job : UpdateJob} : w.workers id = some ⟨.caught, job⟩ →
      w.holder = none → job.mutationStarted = true → job.recoveryAttempted = false →
      WorkerStep env id w .recoverBegin
        ((w.save id ⟨.recovering, { job with recoveryAttempted := true }⟩).hold (some (.update id)))
  /-- `terminal(job, 'FAILED')` -/
  | recoverEnd {w : World} {job : UpdateJob} : w.workers id = some ⟨.recovering, job⟩ →
      WorkerStep env id w .recoverEnd
        (({ w with update := some { job with state := .failed } }.exit id).hold none)
  /-- the last write comes without a lock -/
  | giveUp {w : World} {job : UpdateJob} : w.workers id = some ⟨.unrecovered, job⟩ →
      WorkerStep env id w .giveUp
        ({ w with update := some { job with state := .recoveryRequired } }.exit id)
  /-- the process ends or is killed, and its lock goes with it -/
  | die {w : World} {worker : Worker} : w.workers id = some worker →
      WorkerStep env id w .die
        ((w.exit id).hold (if w.holder = some (.update id) then none else w.holder))

inductive RestoreAct where
  | queue (document : Document) (expected : Field ℤ) (id : Text) (setting : Setting)
  | beginRun
  | apply
  | config
  | policy
  | commit (id : Text) (count : ℕ)
  | finish
  | fail
  | die
  | recover

/-- The writes that `restore_backup` makes under its last state.lock. -/
def commitWrites : List Write := [.publish .stateCommitting, .state, .publish .committed]

/-- What `restore_backup` compares before it writes. -/
def World.Unmoved (w : World) (journal : Journal) : Prop :=
  w.marksNow = w.marks ∧ w.router.disk.state = journal.before.state

/-- `queue_backup`, `run_backup` and `recover` of backup-service.uc. -/
inductive RestoreStep (env : Env) (js : Json) (uci : Uci) : World → RestoreAct → World → Prop
  | queue {w : World} {document : Document} {expected : Field ℤ} {id : Text} {setting : Setting}
      {journal : Journal} : w.holder = none → setting.idle = w.jobsIdle → w.intent < 0x7fffffff →
      (∀ previous, w.router.journal = some previous → previous.id ≠ id) →
      prepareJob env js uci setting document expected id w.router = .ok journal →
      RestoreStep env js uci w (.queue document expected id setting)
        { w with router := w.router.publish journal .prepared, marks := w.marksNow }
  | beginRun {w : World} : w.holder = none → w.restoring = true →
      (∀ journal, w.router.journal = some journal → journal.phase ≠ .recoveryRequired) →
      RestoreStep env js uci w .beginRun (w.hold (some (.restore 0)))
  | apply {w : World} {journal : Journal} : w.holder = some (.restore 0) →
      w.router.journal = some journal → w.Unmoved journal → w.router.files = journal.before →
      RestoreStep env js uci w .apply
        ({ w with router := w.router.publish journal .applying }.hold (some (.restore 1)))
  | config {w : World} {journal : Journal} : w.holder = some (.restore 1) →
      w.router.journal = some journal →
      RestoreStep env js uci w .config
        ({ w with router := Write.perform journal w.router .config }.hold (some (.restore 2)))
  | policy {w : World} {journal : Journal} : w.holder = some (.restore 2) →
      w.router.journal = some journal →
      RestoreStep env js uci w .policy
        ({ w with router := Write.perform journal w.router .policy }.hold (some (.restore 3)))
  /-- the worker gets through the first `count` of the last writes -/
  | commit {w : World} {journal : Journal} {count : ℕ} : w.holder = some (.restore 3) →
      w.router.journal = some journal → w.Unmoved journal → productsAfter journal w.router = true →
      count ≤ 3 →
      RestoreStep env js uci w (.commit journal.id count)
        ({ w with router := (commitWrites.take count).foldl (Write.perform journal) w.router }.hold
          (if count = 3 then some (.restore 4) else none))
  | finish {w : World} : w.holder = some (.restore 4) →
      RestoreStep env js uci w .finish (w.hold none)
  /-- the catch block -/
  | fail {w : World} {done : ℕ} : w.holder = some (.restore done) → done ≤ 3 →
      RestoreStep env js uci w .fail ({ w with router := Backup.recover env w.router }.hold none)
  | die {w : World} {done : ℕ} : w.holder = some (.restore done) →
      RestoreStep env js uci w .die (w.hold none)
  | recover {w : World} : w.holder = none →
      RestoreStep env js uci w .recover { w with router := Backup.recover env w.router }

inductive Act where
  | call (request : Rpc.Request) (out : Outside)
  | stopCut (revision : Field ℤ) (out : Outside)
  | guard (caller : Caller)
  | engine (act : EngineAct)
  | update (act : UpdateAct)
  | worker (id : Text) (act : WorkerAct)
  | restore (act : RestoreAct)

/-- One step of the router. An RPC call may come at any time. -/
inductive Step (env : Env) (js : Json) (uci : Uci) (intentDigest : Mobile.Intent → Text) :
    World → Act → World → Prop
  | call {w : World} {request : Rpc.Request} {out : Outside} {disk : Disk} :
      (∀ revision, request ≠ .stopServer revision) →
      Rpc.perform env intentDigest out w.router.disk request = .ok disk →
      Step env js uci intentDigest w (.call request out) { w with router := { w.router with disk } }
  /-- Stop raises the intent first -/
  | stop {w : World} {revision : Field ℤ} {out : Outside} {disk : Disk} : w.intent < 0x7fffffff →
      Rpc.perform env intentDigest out w.router.disk (.stopServer revision) = .ok disk →
      Step env js uci intentDigest w (.call (.stopServer revision) out)
        { w with router := { w.router with disk }, intent := w.intent + 1 }
  /-- a Stop that crashes behind the intent -/
  | stopCut {w : World} {revision : Field ℤ} {out : Outside} {disk : Disk} :
      w.intent < 0x7fffffff →
      Rpc.perform env intentDigest out w.router.disk (.stopServer revision) = .ok disk →
      Step env js uci intentDigest w (.stopCut revision out) { w with intent := w.intent + 1 }
  | guard {w : World} {caller : Caller} : w.restoring = false →
      Step env js uci intentDigest w (.guard caller) { w with passed := caller :: w.passed }
  | engine {w t : World} {act : EngineAct} : EngineStep env w act t →
      Step env js uci intentDigest w (.engine act) t
  | update {w t : World} {act : UpdateAct} : UpdateStep env w act t →
      Step env js uci intentDigest w (.update act) t
  | worker {w t : World} {id : Text} {act : WorkerAct} : WorkerStep env id w act t →
      Step env js uci intentDigest w (.worker id act) t
  | restore {w t : World} {act : RestoreAct} : RestoreStep env js uci w act t →
      Step env js uci intentDigest w (.restore act) t

end Foxhole.Maintenance
