import Foxhole.Maintenance
import Foxhole.RestoreAtomic

/-! At most one of the engine job, the update job and the restore is under way. -/
namespace Foxhole.Maintenance
open Check Text Trace Backup

/-- PREPARED, APPLYING or STATE_COMMITTING -/
def Phase.underway : Backup.Phase → Bool
  | .prepared | .applying | .stateCommitting => true
  | _ => false

def World.underway (w : World) : Bool :=
  w.router.journal.any fun journal => Phase.underway journal.phase

/-- At most one of the three is under way. -/
def Exclusive (w : World) : Prop :=
  ¬ (active w.engineState = true ∧ active w.updateState = true) ∧
  ¬ (active w.engineState = true ∧ w.underway = true) ∧
  ¬ (active w.updateState = true ∧ w.underway = true)

/-- A step that creates an update job finds no restore under way. -/
def Clear (w : World) : Act → Prop
  | .update (.check _) | .update (.tick _ _) | .update (.apply _ _) | .worker _ (.convert _ _) =>
    w.underway = false
  | _ => True

/-- What holds of a worker by where it stands. -/
def Worker.Ok (worker : Worker) : Prop :=
  match worker.pc with
  | .checking | .applying =>
    active (some worker.job.state) = true ∧ worker.job.mutationStarted = false
  | .checked => worker.job.state = .succeeded ∧ worker.job.mutationStarted = false
  | .locked => active (some worker.job.state) = true
  | .failing | .caught =>
    worker.job.mutationStarted = true → blocked (some worker.job.state) = true
  | .recovering | .unrecovered => blocked (some worker.job.state) = true

/-- A worker is of a job that was begun, and its job is the stored one while it blocks. -/
structure Tracked (w : World) (id : Text) (worker : Worker) : Prop where
  ok : worker.Ok
  jobId : worker.job.jobId = id
  issued : id ∈ w.issued
  begun : id ∉ w.launched
  stored : blocked (some worker.job.state) = true → w.update = some worker.job

structure Workers (w : World) : Prop where
  issued : ∀ job, w.update = some job → job.jobId ∈ w.issued
  unmutated : ∀ job, w.update = some job → job.state = .queued → job.mutationStarted = false
  launched : ∀ id ∈ w.launched, id ∈ w.issued
  worker : ∀ id worker, w.workers id = some worker → Tracked w id worker

structure Excluded (w : World) : Prop where
  engine_update : active w.engineState = true → blocked w.updateState = false
  engine_restore : active w.engineState = true → w.underway = false
  update_restore : blocked w.updateState = true → w.underway = false
  running : w.holder = some .engineRun → active w.engineState = true
  held : ∀ done ≤ 3, w.holder = some (.restore done) → w.underway = true

theorem blocked_of_active {state : Option JobState} (h : active state = true) :
    blocked state = true := by simp [blocked, h]

theorem active_of_working {state : JobState} (h : state.working = true) :
    active (some state) = true := by
  cases state <;> simp_all [JobState.working, JobState.terminal, active]

theorem not_blocked_of_idle {state : Option JobState} (h : idle state = true) :
    blocked state = false := by
  rcases state with - | state
  · rfl
  · cases state <;> simp_all [idle, blocked, active, JobState.terminal]

theorem not_active_of_not_blocked {state : Option JobState} (h : blocked state = false) :
    active state = false := by
  cases ha : active state
  · rfl
  · simp [blocked_of_active ha] at h

theorem Excluded.exclusive {w : World} (h : Excluded w) : Exclusive w := by
  refine ⟨?_, ?_, ?_⟩
  · rintro ⟨he, hu⟩
    have hb := h.engine_update he
    simp [blocked_of_active hu] at hb
  · rintro ⟨he, hr⟩
    simp [h.engine_restore he] at hr
  · rintro ⟨hu, hr⟩
    simp [h.update_restore (blocked_of_active hu)] at hr

section
variable {env : Env} {js : Json} {uci : Uci} {intentDigest : Mobile.Intent → Text}
  {w t : World} {id : Text} {xs : List Act}

theorem workers_start (router : Router) (intent : ℕ) : Workers (World.start router intent) := by
  constructor <;> simp [World.start]

theorem excluded_start (router : Router) (intent : ℕ) : Excluded (World.start router intent) := by
  constructor <;> simp [World.start, World.engineState, World.updateState, active, blocked]

/-! The engine job. -/

theorem engineStep_frame {act : EngineAct} (h : EngineStep env w act t) :
    t.update = w.update ∧ t.workers = w.workers ∧ t.launched = w.launched ∧ t.issued = w.issued ∧
      t.router = w.router := by
  cases h <;> simp [World.setEngine, World.hold, World.pass]

theorem Workers.frame (h : Workers w) (hu : t.update = w.update) (hw : t.workers = w.workers)
    (hl : t.launched = w.launched) (hi : t.issued = w.issued) : Workers t where
  issued := by rw [hu, hi]; exact h.issued
  unmutated := by rw [hu]; exact h.unmutated
  launched := by rw [hl, hi]; exact h.launched
  worker := by
    intro id worker hworker
    rw [hw] at hworker
    have ht := h.worker id worker hworker
    exact ⟨ht.ok, ht.jobId, hi ▸ ht.issued, hl ▸ ht.begun, hu ▸ ht.stored⟩

/-- What an engine step may do to the engine job: start one where all is clear, or go on with an
active one. -/
theorem engineStep_active {act : EngineAct} (h : EngineStep env w act t) (hi : Excluded w)
    (ha : active t.engineState = true) :
    active w.engineState = true ∨ w.restoring = false ∧ blocked w.updateState = false := by
  cases h with
  | apply _ hr hu _ _ _ => exact Or.inr ⟨hr, hu⟩
  | plan | recoverBegin | start | die => exact Or.inl ha
  | launchFailed => simp [World.setEngine, World.engineState, active, JobState.terminal] at ha
  | reconcile => simp [World.setEngine, World.engineState, active, JobState.terminal] at ha
  | beginRun _ _ _ he hq =>
    left
    simp [World.engineState, active, he, hq, JobState.terminal]
  | progress hh _ _ => exact Or.inl (hi.running hh)
  | succeed hh _ => exact Or.inl (hi.running hh)
  | fail hh _ => exact Or.inl (hi.running hh)
  | @recoverEnd job restored _ _ =>
    cases restored <;>
      simp [World.setEngine, World.engineState, World.hold, active, JobState.terminal] at ha

theorem not_underway (h : w.restoring = false) : w.underway = false := by
  unfold World.restoring pending at h
  unfold World.underway
  rcases hj : w.router.journal with - | journal
  · rfl
  · rw [hj] at h
    cases hp : journal.phase <;> simp_all [Phase.underway, Backup.Phase.terminal]

theorem engineStep_excluded {act : EngineAct} (h : EngineStep env w act t) (hi : Excluded w) :
    Excluded t := by
  obtain ⟨hu, -, -, -, hr⟩ := engineStep_frame h
  have hus : t.updateState = w.updateState := by simp [World.updateState, hu]
  have huw : t.underway = w.underway := by simp [World.underway, hr]
  refine ⟨?_, ?_, by rw [hus, huw]; exact hi.update_restore, ?_, ?_⟩
  · intro ha
    rw [hus]
    rcases engineStep_active h hi ha with hw | ⟨-, hw⟩
    · exact hi.engine_update hw
    · exact hw
  · intro ha
    rw [huw]
    rcases engineStep_active h hi ha with hw | ⟨hw, -⟩
    · exact hi.engine_restore hw
    · exact not_underway hw
  · intro hh
    cases h with
    | beginRun =>
      simp [World.engineState, World.hold, World.setEngine, active, JobState.terminal]
    | progress _ _ hs => exact active_of_working hs
    | plan | start => exact hi.running hh
    | apply hn | launchFailed hn | reconcile hn => simp [World.setEngine, hn] at hh
    | recoverBegin => simp [World.hold] at hh
    | succeed | fail | recoverEnd | die => simp [World.hold] at hh
  · intro done hd hh
    rw [huw]
    cases h with
    | plan | start => exact hi.held done hd hh
    | apply hn | launchFailed hn | reconcile hn => simp [World.setEngine, hn] at hh
    | progress hrun => simp [World.setEngine, hrun] at hh
    | beginRun | recoverBegin => simp [World.hold] at hh
    | succeed | fail | recoverEnd | die => simp [World.hold] at hh

theorem engineStep_workers {act : EngineAct} (h : EngineStep env w act t) (hw : Workers w) :
    Workers t := by
  obtain ⟨hu, hk, hl, hi, -⟩ := engineStep_frame h
  exact hw.frame hu hk hl hi

/-! The update job and its workers. -/

/-- The stored job is of the worker `id`, if it blocks. -/
def World.Owns (w : World) (id : Text) : Prop :=
  ∀ job, w.update = some job → blocked (some job.state) = true → job.jobId = id

theorem Tracked.owns {worker : Worker} (h : Tracked w id worker)
    (hb : blocked (some worker.job.state) = true) : w.Owns id := by
  intro job hj _
  have hs := h.stored hb
  rw [hj, Option.some.injEq] at hs
  rw [hs]
  exact h.jobId

/-- The worker `id` stores its copy, and nobody else minds. -/
theorem Workers.save (h : Workers w) {worker next : Worker} (hw : w.workers id = some worker)
    (hu : w.Owns id)
    (hok : next.Ok) (hid : next.job.jobId = id)
    (hm : next.job.state = .queued → next.job.mutationStarted = false) :
    Workers (w.save id next) where
  issued := by
    rintro job ⟨⟩
    rw [hid]
    exact (h.worker id worker hw).issued
  unmutated := by
    rintro job ⟨⟩
    exact hm
  launched := h.launched
  worker := by
    intro id' worker' hworker
    by_cases he : id' = id
    · subst he
      simp only [World.save, World.goOn, Function.update_self, Option.some.injEq] at hworker
      subst hworker
      have ht := h.worker id' worker hw
      exact ⟨hok, hid, ht.issued, ht.begun, fun _ => rfl⟩
    · simp only [World.save, World.goOn, Function.update_of_ne he] at hworker
      have ht := h.worker id' worker' hworker
      refine ⟨ht.ok, ht.jobId, ht.issued, ht.begun, fun hb => ?_⟩
      have hs := ht.stored hb
      have hid' := hu _ hs hb
      rw [ht.jobId] at hid'
      exact absurd hid' he

/-- The worker `id` goes on without a write. -/
theorem Workers.goOn (h : Workers w) {worker next : Worker} (hw : w.workers id = some worker)
    (hok : next.Ok) (hj : next.job = worker.job) : Workers (w.goOn id next) where
  issued := h.issued
  unmutated := h.unmutated
  launched := h.launched
  worker := by
    intro id' worker' hworker
    by_cases he : id' = id
    · subst he
      simp only [World.goOn, Function.update_self, Option.some.injEq] at hworker
      subst hworker
      have ht := h.worker id' worker hw
      exact ⟨hok, hj ▸ ht.jobId, ht.issued, ht.begun, hj ▸ ht.stored⟩
    · simp only [World.goOn, Function.update_of_ne he] at hworker
      have ht := h.worker id' worker' hworker
      exact ⟨ht.ok, ht.jobId, ht.issued, ht.begun, ht.stored⟩

/-- A worker begins with the stored job. -/
theorem Workers.spawn (h : Workers w) {worker : Worker} (hu : w.update = some worker.job)
    (hid : worker.job.jobId = id) (hl : id ∉ w.launched) (hok : worker.Ok) :
    Workers (w.goOn id worker) where
  issued := h.issued
  unmutated := h.unmutated
  launched := h.launched
  worker := by
    intro id' worker' hworker
    by_cases he : id' = id
    · subst he
      simp only [World.goOn, Function.update_self, Option.some.injEq] at hworker
      subst hworker
      exact ⟨hok, hid, hid ▸ h.issued _ hu, hl, fun _ => hu⟩
    · simp only [World.goOn, Function.update_of_ne he] at hworker
      have ht := h.worker id' worker' hworker
      exact ⟨ht.ok, ht.jobId, ht.issued, ht.begun, ht.stored⟩

theorem Workers.exit (h : Workers w) : Workers (w.exit id) where
  issued := h.issued
  unmutated := h.unmutated
  launched := h.launched
  worker := by
    intro id' worker' hworker
    by_cases he : id' = id
    · simp [World.exit, he] at hworker
    · simp only [World.exit, Function.update_of_ne he] at hworker
      have ht := h.worker id' worker' hworker
      exact ⟨ht.ok, ht.jobId, ht.issued, ht.begun, ht.stored⟩

/-- The worker `id` ends with a write. -/
theorem Workers.exit_store (h : Workers w) {worker : Worker} {job : UpdateJob}
    (hw : w.workers id = some worker)
    (hu : w.Owns id)
    (hid : job.jobId = id) (hm : job.state = .queued → job.mutationStarted = false) :
    Workers ({ w with update := some job }.exit id) where
  issued := by
    rintro job ⟨⟩
    rw [hid]
    exact (h.worker id worker hw).issued
  unmutated := by
    rintro job ⟨⟩
    exact hm
  launched := h.launched
  worker := by
    intro id' worker' hworker
    by_cases he : id' = id
    · simp [World.exit, he] at hworker
    · simp only [World.exit, Function.update_of_ne he] at hworker
      have ht := h.worker id' worker' hworker
      refine ⟨ht.ok, ht.jobId, ht.issued, ht.begun, fun hb => ?_⟩
      have hid' := hu _ (ht.stored hb) hb
      rw [ht.jobId] at hid'
      exact absurd hid' he

/-- A new job is stored where none blocks. -/
theorem Workers.create (h : Workers w) {job : UpdateJob} (hb : blocked w.updateState = false)
    (hm : job.mutationStarted = false) : Workers (w.create job) where
  issued := by
    rintro job ⟨⟩
    exact List.mem_cons_self
  unmutated := by
    rintro job ⟨⟩ -
    exact hm
  launched := fun id hid => List.mem_cons_of_mem _ (h.launched id hid)
  worker := by
    intro id' worker' hworker
    have ht := h.worker id' worker' hworker
    refine ⟨ht.ok, ht.jobId, List.mem_cons_of_mem _ ht.issued, ht.begun, fun hbw => ?_⟩
    have hs := ht.stored hbw
    simp [World.updateState, hs, hbw] at hb

theorem Workers.launch (h : Workers w) (hid : id ∈ w.issued) (hw : w.workers id = none) :
    Workers (w.launch id) where
  issued := h.issued
  unmutated := h.unmutated
  launched := by
    intro id' hid'
    rcases List.mem_cons.1 hid' with rfl | hid'
    · exact hid
    · exact h.launched id' hid'
  worker := by
    intro id' worker' hworker
    have ht := h.worker id' worker' hworker
    refine ⟨ht.ok, ht.jobId, ht.issued, ?_, ht.stored⟩
    intro hm
    rcases List.mem_cons.1 hm with rfl | hm
    · rw [show w.workers id' = some worker' from hworker] at hw
      simp at hw
    · exact ht.begun hm

theorem Workers.fresh (h : Workers w) (hid : id ∉ w.issued) : w.workers id = none := by
  rcases hw : w.workers id with - | worker
  · rfl
  · exact absurd (h.worker id worker hw).issued hid

theorem updateStep_workers {act : UpdateAct} (h : UpdateStep env w act t) (hw : Workers w) :
    Workers t := by
  cases h with
  | settings => exact hw.frame rfl rfl rfl rfl
  | plan => exact hw.frame rfl rfl rfl rfl
  | check _ _ hb _ hid _ =>
    have hp : Workers (w.pass .updateCheck) := hw.frame rfl rfl rfl rfl
    exact (hp.create hb rfl).launch List.mem_cons_self (hw.fresh hid)
  | @tick id wall _ record _ _ hb _ hid _ _ =>
    have hp : Workers { w.pass .updateTick with router := { w.router with
        policy := some { record with lastAttemptAtUnixMs := .value wall } } } :=
      hw.frame rfl rfl rfl rfl
    exact (hp.create hb rfl).launch List.mem_cons_self (hw.fresh hid)
  | apply _ _ hb _ hid _ _ _ =>
    have hp : Workers (w.pass .updateApply) := hw.frame rfl rfl rfl rfl
    exact (hp.create hb rfl).launch List.mem_cons_self (hw.fresh hid)
  | @launchFailed job _ hl hj hq =>
    constructor
    · rintro job' ⟨⟩
      exact hw.issued job hj
    · rintro job' ⟨⟩ hq
      simp at hq
    · intro id hid
      exact hw.launched id (List.mem_filter.1 hid).1
    · intro id worker hworker
      have ht := hw.worker id worker hworker
      refine ⟨ht.ok, ht.jobId, ht.issued, fun hm => ht.begun (List.mem_filter.1 hm).1, ?_⟩
      intro hb
      -- the job of a launched process has no worker yet
      have hid := ht.owns hb job hj (by simp [blocked, active, hq, JobState.terminal])
      rw [hid] at hl
      exact absurd hl ht.begun
  | @reconcile job _ hj ha hn =>
    constructor
    · rintro job' ⟨⟩
      exact hw.issued job hj
    · rintro job' ⟨⟩ hq
      simp only at hq
      split at hq <;> cases hq
    · exact hw.launched
    · intro id worker hworker
      have ht := hw.worker id worker hworker
      refine ⟨ht.ok, ht.jobId, ht.issued, ht.begun, fun hb => ?_⟩
      have hid := ht.owns hb job hj (by simp [blocked, active, ha])
      rw [hid, show w.workers id = some worker from hworker] at hn
      cases hn

/-- The worker of a queued job takes it. -/
theorem Workers.beginRun {job : UpdateJob} (hw : Workers w) (hl : id ∈ w.launched)
    (hj : w.update = some job) (hid : job.jobId = id) (hq : job.state = .queued) :
    Workers ({ w.pass (.updateRun id) with launched := w.launched.filter (· ≠ id) }.save id
      ⟨job.operation.pc, { job with state := .verifying }⟩) := by
  have hu := hw.unmutated job hj hq
  constructor
  · rintro job' ⟨⟩
    exact hw.issued job hj
  · rintro job' ⟨⟩ hq
    simp at hq
  · intro id' hid'
    exact hw.launched id' (List.mem_filter.1 hid').1
  · intro id' worker' hworker
    by_cases he : id' = id
    · subst he
      simp only [World.save, World.goOn, Function.update_self, Option.some.injEq] at hworker
      subst hworker
      refine ⟨?_, hid, hw.launched _ hl, by simp [World.save, World.goOn], fun _ => rfl⟩
      cases ho : job.operation <;>
        simp [Worker.Ok, Operation.pc, active, JobState.terminal, hu]
    · simp only [World.save, World.goOn, Function.update_of_ne he] at hworker
      have ht := hw.worker id' worker' hworker
      refine ⟨ht.ok, ht.jobId, ht.issued, fun hm => ht.begun (List.mem_filter.1 hm).1, ?_⟩
      intro hb
      have hid' := ht.owns hb job hj (by simp [blocked, active, hq, JobState.terminal])
      rw [hid] at hid'
      exact absurd hid'.symm he

/-- A check that is done starts the conversion. -/
theorem Workers.convert {job stored : UpdateJob} {id' : Text} {plan : Plan} (hw : Workers w)
    (hs : w.update = some stored) (hst : stored.state = .succeeded) (hid' : id' ∉ w.issued) :
    Workers ((({ w with plans := plan :: w.plans }.create (job.converted id' plan)).exit id).goOn
      id' ⟨.applying, job.converted id' plan⟩) := by
  have hb : blocked w.updateState = false := by
    simp [World.updateState, hs, hst, blocked, active, JobState.terminal]
  have hp : Workers { w with plans := plan :: w.plans } := hw.frame rfl rfl rfl rfl
  have hc : Workers ({ w with plans := plan :: w.plans }.create (job.converted id' plan)) :=
    hp.create hb rfl
  have he :
      Workers (({ w with plans := plan :: w.plans }.create (job.converted id' plan)).exit id) :=
    hc.exit
  refine he.spawn rfl rfl (fun hm => hid' (hw.launched _ hm)) ?_
  simp [Worker.Ok, UpdateJob.converted, active, JobState.terminal]

theorem workerStep_workers {act : WorkerAct} (h : WorkerStep env id w act t) (hw : Workers w) :
    Workers t := by
  cases h with
  | beginRun _ hl _ hj hid hq => exact hw.beginRun hl hj hid hq
  | @progress job state hj hs =>
    have ht := hw.worker id _ hj
    obtain ⟨ha, hm⟩ := ht.ok
    exact hw.save hj (ht.owns (blocked_of_active ha)) ⟨active_of_working hs, hm⟩ ht.jobId
      fun _ => hm
  | @checked job hj _ _ =>
    have ht := hw.worker id _ hj
    obtain ⟨ha, hm⟩ := ht.ok
    exact hw.save hj (ht.owns (blocked_of_active ha)) ⟨rfl, hm⟩ ht.jobId fun _ => hm
  | convert _ _ hs _ _ hst _ _ _ _ hid' => exact hw.convert hs hst hid'
  | leave hj => exact hw.exit
  | @lock job plan hj _ _ _ _ _ =>
    have ht := hw.worker id _ hj
    obtain ⟨ha, hm⟩ := ht.ok
    have hs : Workers (w.save id ⟨.locked, { job with state := .verifying }⟩) :=
      hw.save hj (ht.owns (blocked_of_active ha)) (by simp [Worker.Ok, active, JobState.terminal])
        ht.jobId fun _ => hm
    exact hs.frame rfl rfl rfl rfl
  | @work pc job state hj hpc hs =>
    have ht := hw.worker id _ hj
    have hq : state ≠ .queued := by
      rintro rfl
      simp [JobState.working] at hs
    rcases hpc with rfl | rfl
    · exact hw.save hj (ht.owns (blocked_of_active ht.ok)) (active_of_working hs) ht.jobId
        fun h => absurd h hq
    · exact hw.save hj (ht.owns ht.ok) (blocked_of_active (active_of_working hs)) ht.jobId
        fun h => absurd h hq
  | @mutate job plan hj _ _ _ =>
    have ht := hw.worker id _ hj
    exact hw.save hj (ht.owns (blocked_of_active ht.ok))
      (by simp [Worker.Ok, active, JobState.terminal]) ht.jobId (by simp)
  | start => exact hw
  | @succeed job hj =>
    have ht := hw.worker id _ hj
    have hs : Workers ({ w with update := some { job with state := .succeeded } }.exit id) :=
      hw.exit_store hj (ht.owns (blocked_of_active ht.ok)) ht.jobId (by simp)
    exact hs.frame rfl rfl rfl rfl
  | @fails pc job hj hpc =>
    have ht := hw.worker id _ hj
    refine hw.goOn hj (fun hm => ?_) rfl
    rcases hpc with rfl | rfl | rfl
    · exact absurd (ht.ok.2.symm.trans hm) Bool.false_ne_true
    · exact absurd (ht.ok.2.symm.trans hm) Bool.false_ne_true
    · exact absurd (ht.ok.2.symm.trans hm) Bool.false_ne_true
  | @failsLocked job hj =>
    have ht := hw.worker id _ hj
    have hs : Workers (w.goOn id ⟨.failing, job⟩) :=
      hw.goOn hj (fun _ => blocked_of_active ht.ok) rfl
    exact hs.frame rfl rfl rfl rfl
  | @failsCaught job hj hm =>
    have ht := hw.worker id _ hj
    exact hw.goOn hj (ht.ok hm) rfl
  | @failsRecovering job hj =>
    have ht := hw.worker id _ hj
    have hs : Workers (w.goOn id ⟨.unrecovered, job⟩) := hw.goOn hj ht.ok rfl
    exact hs.frame rfl rfl rfl rfl
  | @records job stored hj _ hs hid =>
    have ht := hw.worker id _ hj
    refine hw.save hj ?_ (fun hm => ?_) ht.jobId fun hq => ?_
    · intro job' hj' _
      rw [hs, Option.some.injEq] at hj'
      rw [← hj', hid]
      exact ht.jobId
    · have hm' : job.mutationStarted = true := hm
      simp [UpdateJob.failed, hm', blocked]
    · simp only [UpdateJob.failed] at hq
      split at hq <;> cases hq
  | @recordsNothing job hj _ _ =>
    have ht := hw.worker id _ hj
    exact hw.goOn hj ht.ok rfl
  | @recoverBegin job hj _ hm _ =>
    have ht := hw.worker id _ hj
    have hb := ht.ok hm
    have hs : Workers (w.save id ⟨.recovering, { job with recoveryAttempted := true }⟩) :=
      hw.save hj (ht.owns hb) hb ht.jobId fun hq => hw.unmutated job (ht.stored hb) hq
    exact hs.frame rfl rfl rfl rfl
  | @recoverEnd job hj =>
    have ht := hw.worker id _ hj
    have hs : Workers ({ w with update := some { job with state := .failed } }.exit id) :=
      hw.exit_store hj (ht.owns ht.ok) ht.jobId (by simp)
    exact hs.frame rfl rfl rfl rfl
  | @giveUp job hj =>
    have ht := hw.worker id _ hj
    exact hw.exit_store hj (ht.owns ht.ok) ht.jobId (by simp)
  | die => exact hw.exit.frame rfl rfl rfl rfl

theorem updateStep_frame {act : UpdateAct} (h : UpdateStep env w act t) :
    t.engine = w.engine ∧ t.holder = w.holder ∧ t.router.journal = w.router.journal := by
  cases h <;> simp [World.pass, World.create, World.launch]

theorem workerStep_frame {act : WorkerAct} (h : WorkerStep env id w act t) :
    t.engine = w.engine ∧ t.router = w.router := by
  cases h <;> simp [World.pass, World.create, World.save, World.goOn, World.exit, World.hold]

/-- A job comes to block only where no engine job does, by a step that creates it. -/
theorem updateStep_blocked {act : UpdateAct} (h : UpdateStep env w act t)
    (hb : blocked t.updateState = true) :
    blocked w.updateState = true ∨
      blocked w.engineState = false ∧ (Clear w (.update act) → w.underway = false) := by
  cases h with
  | settings => exact Or.inl hb
  | plan => exact Or.inl hb
  | check _ _ _ he | tick _ _ _ he | apply _ _ _ he => exact Or.inr ⟨he, id⟩
  | launchFailed => simp [World.updateState, blocked, active, JobState.terminal] at hb
  | reconcile _ hj ha =>
    left
    simp [World.updateState, hj, blocked, active, ha]

theorem Tracked.blocks {worker : Worker} (h : Tracked w id worker)
    (hb : blocked (some worker.job.state) = true) : blocked w.updateState = true := by
  simpa [World.updateState, h.stored hb] using hb

theorem workerStep_blocked {act : WorkerAct} (h : WorkerStep env id w act t) (hw : Workers w)
    (hb : blocked t.updateState = true) :
    blocked w.updateState = true ∨
      blocked w.engineState = false ∧ (Clear w (.worker id act) → w.underway = false) := by
  cases h with
  | beginRun _ _ _ hj _ hq =>
    left
    simp [World.updateState, hj, blocked, active, hq, JobState.terminal]
  | progress hj =>
    exact Or.inl ((hw.worker id _ hj).blocks (blocked_of_active (hw.worker id _ hj).ok.1))
  | checked => simp [World.updateState, World.save, blocked, active, JobState.terminal] at hb
  | convert _ _ _ _ _ _ _ _ he => exact Or.inr ⟨he, fun hc => hc⟩
  | leave | fails | failsLocked | failsCaught | failsRecovering | recordsNothing | start | die =>
    exact Or.inl hb
  | lock hj =>
    exact Or.inl ((hw.worker id _ hj).blocks (blocked_of_active (hw.worker id _ hj).ok.1))
  | @work pc job state hj hpc _ =>
    have ht := hw.worker id _ hj
    rcases hpc with rfl | rfl
    · exact Or.inl (ht.blocks (blocked_of_active ht.ok))
    · exact Or.inl (ht.blocks ht.ok)
  | mutate hj =>
    exact Or.inl ((hw.worker id _ hj).blocks (blocked_of_active (hw.worker id _ hj).ok))
  | succeed =>
    simp [World.updateState, World.exit, World.hold, blocked, active, JobState.terminal] at hb
  | @records job stored hj _ hs hid =>
    have ht := hw.worker id _ hj
    cases hm : job.mutationStarted
    · simp [World.updateState, World.save, UpdateJob.failed, hm, blocked, active,
        JobState.terminal] at hb
    · exact Or.inl (ht.blocks (ht.ok hm))
  | recoverBegin hj _ hm =>
    have ht := hw.worker id _ hj
    exact Or.inl (ht.blocks (ht.ok hm))
  | recoverEnd =>
    simp [World.updateState, World.exit, World.hold, blocked, active, JobState.terminal] at hb
  | giveUp hj => exact Or.inl ((hw.worker id _ hj).blocks (hw.worker id _ hj).ok)

/-- A step that leaves the engine job and the journal alone, keeps the holders that matter and
creates an update job only where all is clear. -/
theorem Excluded.update (hi : Excluded w) (he : t.engine = w.engine)
    (hr : t.router.journal = w.router.journal)
    (hb : blocked t.updateState = true →
      blocked w.updateState = true ∨ blocked w.engineState = false ∧ w.underway = false)
    (hh : ∀ holder, t.holder = some holder → (∀ id, holder ≠ .update id) →
      w.holder = some holder) : Excluded t := by
  have hes : t.engineState = w.engineState := by simp [World.engineState, he]
  have huw : t.underway = w.underway := by simp [World.underway, hr]
  refine ⟨?_, by rw [hes, huw]; exact hi.engine_restore, ?_, ?_, ?_⟩
  · intro ha
    rw [hes] at ha
    cases hbt : blocked t.updateState
    · rfl
    · rcases hb hbt with hbw | ⟨hn, -⟩
      · simp [hi.engine_update ha] at hbw
      · simp [blocked_of_active ha] at hn
  · intro hbt
    rw [huw]
    rcases hb hbt with hbw | ⟨-, hu⟩
    · exact hi.update_restore hbw
    · exact hu
  · intro hr
    rw [hes]
    exact hi.running (hh _ hr (by simp))
  · intro done hd hr
    rw [huw]
    exact hi.held done hd (hh _ hr (by simp))

theorem updateStep_excluded {act : UpdateAct} (h : UpdateStep env w act t)
    (hc : Clear w (.update act)) (hi : Excluded w) : Excluded t := by
  obtain ⟨he, hh, hr⟩ := updateStep_frame h
  refine hi.update he hr (fun hb => ?_) fun holder hs _ => hh ▸ hs
  rcases updateStep_blocked h hb with hb | ⟨hn, hu⟩
  · exact Or.inl hb
  · exact Or.inr ⟨hn, hu hc⟩

theorem workerStep_excluded {act : WorkerAct} (h : WorkerStep env id w act t) (hw : Workers w)
    (hc : Clear w (.worker id act)) (hi : Excluded w) : Excluded t := by
  obtain ⟨he, hr⟩ := workerStep_frame h
  refine hi.update he (by rw [hr]) (fun hb => ?_) fun holder hs hn => ?_
  · rcases workerStep_blocked h hw hb with hb | ⟨hn, hu⟩
    · exact Or.inl hb
    · exact Or.inr ⟨hn, hu hc⟩
  · cases h with
    | lock | recoverBegin =>
      simp only [World.hold, Option.some.injEq] at hs
      exact absurd hs.symm (hn id)
    | _ => simp_all [World.pass, World.create, World.save, World.goOn, World.exit, World.hold]

/-! The restore. -/

theorem prepareJob_idle {setting : Setting} {document : Document} {expected : Field ℤ}
    {router : Router} {journal : Journal}
    (h : prepareJob env js uci setting document expected id router = .ok journal) :
    setting.idle = true := by
  simp only [prepareJob, bind_eq_ok, require_eq_ok] at h
  obtain ⟨-, -, -, -, -, hidle, -⟩ := h
  exact hidle

theorem restoreStep_frame {act : RestoreAct} (h : RestoreStep env js uci w act t) :
    t.update = w.update ∧ t.workers = w.workers ∧ t.launched = w.launched ∧ t.issued = w.issued ∧
      t.engine = w.engine := by
  cases h <;> simp [World.hold]

theorem restoreStep_workers {act : RestoreAct} (h : RestoreStep env js uci w act t)
    (hw : Workers w) : Workers t := by
  obtain ⟨hu, hk, hl, hi, -⟩ := restoreStep_frame h
  exact hw.frame hu hk hl hi

/-- A step of the restore that leaves the jobs alone, and gets under way only where they are
idle. -/
theorem Excluded.restore (hi : Excluded w) (he : t.engine = w.engine) (hu : t.update = w.update)
    (hr : t.underway = true →
      w.underway = true ∨ active w.engineState = false ∧ blocked w.updateState = false)
    (hh : t.holder = some .engineRun → w.holder = some .engineRun)
    (hd : ∀ done ≤ 3, t.holder = some (.restore done) → t.underway = true) : Excluded t := by
  have hes : t.engineState = w.engineState := by simp [World.engineState, he]
  have hus : t.updateState = w.updateState := by simp [World.updateState, hu]
  refine ⟨by rw [hes, hus]; exact hi.engine_update, ?_, ?_, ?_, hd⟩
  · intro ha
    rw [hes] at ha
    cases hrt : t.underway
    · rfl
    · rcases hr hrt with hrw | ⟨hn, -⟩
      · simp [hi.engine_restore ha] at hrw
      · simp [ha] at hn
  · intro hb
    rw [hus] at hb
    cases hrt : t.underway
    · rfl
    · rcases hr hrt with hrw | ⟨-, hn⟩
      · simp [hi.update_restore hb] at hrw
      · simp [hb] at hn
  · intro hrun
    rw [hes]
    exact hi.running (hh hrun)

theorem recover_underway {router : Router}
    (h : (Backup.recover env router).journal.any
      (fun journal => Phase.underway journal.phase) = true) :
    router.journal.any (fun journal => Phase.underway journal.phase) = true := by
  rcases hj : router.journal with - | journal
  · simp [Backup.recover, hj] at h
  · cases hp : journal.phase with
    | prepared | applying | stateCommitting => simp [Phase.underway, hp]
    | committed | cancelled | recoveryRequired =>
      simp [Backup.recover, hj, hp, Backup.Phase.terminal, Phase.underway] at h

theorem underway_of_restoring (h : w.restoring = true)
    (hr : ∀ journal, w.router.journal = some journal → journal.phase ≠ .recoveryRequired) :
    w.underway = true := by
  rcases hj : w.router.journal with - | journal
  · simp [World.restoring, pending, hj] at h
  · have hne := hr journal hj
    cases hp : journal.phase <;>
      simp_all [World.restoring, pending, World.underway, Phase.underway, Backup.Phase.terminal]

theorem restoreStep_excluded {act : RestoreAct} (h : RestoreStep env js uci w act t)
    (hi : Excluded w) : Excluded t := by
  obtain ⟨hu, -, -, -, he⟩ := restoreStep_frame h
  cases h with
  | queue hn hidle _ _ hp =>
    have hall := (Bool.and_eq_true_iff).1 (hidle.symm.trans (prepareJob_idle hp))
    refine hi.restore he hu (fun _ => Or.inr ⟨?_, not_blocked_of_idle hall.2⟩) (fun hr => hr) ?_
    · exact not_active_of_not_blocked (not_blocked_of_idle hall.1)
    · intro done _ hd
      simp [hn] at hd
  | beginRun hn hr hne =>
    have huw := underway_of_restoring hr hne
    exact hi.restore he hu Or.inl (fun hr => by simp [World.hold] at hr) fun _ _ _ => huw
  | apply hd hj _ _ =>
    have huw := hi.held 0 (by omega) hd
    refine hi.restore he hu (fun _ => Or.inl huw) (fun hr => by simp [World.hold] at hr) ?_
    intro done _ _
    rfl
  | config hd hj =>
    have huw := hi.held 1 (by omega) hd
    exact hi.restore he hu Or.inl (fun hr => by simp [World.hold] at hr) fun _ _ _ => huw
  | policy hd hj =>
    have huw := hi.held 2 (by omega) hd
    exact hi.restore he hu Or.inl (fun hr => by simp [World.hold] at hr) fun _ _ _ => huw
  | @commit journal count hd hj _ _ _ =>
    have huw := hi.held 3 (by omega) hd
    refine hi.restore he hu (fun _ => Or.inl huw) (fun hr => ?_) fun done h3 hh => ?_
    · simp only [World.hold] at hr
      split at hr <;> cases hr
    · simp only [World.hold] at hh
      split at hh
      · simp only [Option.some.injEq, Holder.restore.injEq] at hh
        omega
      · cases hh
  | finish =>
    exact hi.restore he hu Or.inl (fun hr => by simp [World.hold] at hr)
      fun _ _ hr => by simp [World.hold] at hr
  | fail =>
    exact hi.restore he hu (fun hr => Or.inl (recover_underway hr))
      (fun hr => by simp [World.hold] at hr) fun _ _ hr => by simp [World.hold] at hr
  | die =>
    exact hi.restore he hu Or.inl (fun hr => by simp [World.hold] at hr)
      fun _ _ hr => by simp [World.hold] at hr
  | recover hn =>
    exact hi.restore he hu (fun hr => Or.inl (recover_underway hr)) (fun hr => hr)
      fun _ _ hr => by simp [hn] at hr

theorem step_workers {act : Act} (h : Step env js uci intentDigest w act t) (hw : Workers w) :
    Workers t := by
  cases h with
  | call | stop | stopCut | guard => exact hw.frame rfl rfl rfl rfl
  | engine h => exact engineStep_workers h hw
  | update h => exact updateStep_workers h hw
  | worker h => exact workerStep_workers h hw
  | restore h => exact restoreStep_workers h hw

theorem step_excluded {act : Act} (h : Step env js uci intentDigest w act t) (hw : Workers w)
    (hc : Clear w act) (hi : Excluded w) : Excluded t := by
  cases h with
  | call | stop | stopCut | guard => exact hi.restore rfl rfl Or.inl (fun hr => hr) hi.held
  | engine h => exact engineStep_excluded h hi
  | update h => exact updateStep_excluded h hc hi
  | worker h => exact workerStep_excluded h hw hc hi
  | restore h => exact restoreStep_excluded h hi

/-- While every update job is created with no restore under way, at most one of the three is. -/
theorem exclusive_run {router : Router} {intent : ℕ}
    (h : Run (Guarded Clear (Step env js uci intentDigest)) (World.start router intent) xs w) :
    Exclusive w := by
  have hinv : Workers w ∧ Excluded w :=
    h.invariant (I := fun w => Workers w ∧ Excluded w)
      (fun _ _ _ hi hs => ⟨step_workers hs.2 hi.1, step_excluded hs.2 hi.1 hs.1 hi.2⟩)
      ⟨workers_start router intent, excluded_start router intent⟩
  exact hinv.2.exclusive

/-- Automatic checks are on. -/
def tickPolicy : RawUpdatePolicy := ⟨.value 1, .value 1, .value true, .missing⟩

def tickRouter : Router := { switchRouter with policy := some tickPolicy }

/-- The update job that the hourly `tick` creates. -/
def tickJob : UpdateJob where
  jobId := ['u']
  operation := .check
  automatic := true
  policyRevision := 1

/-- What `tick` leaves, the clock having been set. -/
def World.ticked (w : World) : World :=
  (({ w.pass .updateTick with router := { w.router with
    policy := some { tickPolicy with lastAttemptAtUnixMs := .value 1767268800000 } } }).create
    tickJob).launch ['u']

/-- The process of `tick` has passed `guard()`. -/
def passedWorld : World := { World.start tickRouter 0 with passed := [.updateTick] }

theorem start_passed : Step serverEnv anyJson switchUci noDigest (World.start tickRouter 0)
    (.guard .updateTick) passedWorld := .guard rfl

theorem passed_tick (w : World) (hp : w.passed = [.updateTick]) (hn : w.holder = none)
    (hu : w.update = none) (he : w.engine = none) (hi : w.issued = [])
    (hpolicy : w.router.policy = some tickPolicy) :
    Step serverEnv anyJson switchUci noDigest w (.update (.tick ['u'] 1767268800000)) w.ticked := by
  have hrecord : updatePolicy w.router.policy = .ok (1, tickPolicy) := by
    rw [hpolicy]
    decide
  refine .update (.tick ?_ hn ?_ ?_ ?_ hrecord rfl)
  · simp [hp]
  · simp [World.updateState, hu, blocked, active]
  · simp [World.engineState, he, blocked, active]
  · simp [hi]

/-- A tick on a router without a restore. -/
theorem exclusive_run_tick : Exclusive passedWorld.ticked := by
  have hguard : Guarded Clear (Step serverEnv anyJson switchUci noDigest)
      (World.start tickRouter 0) (.guard .updateTick) passedWorld := ⟨trivial, start_passed⟩
  have htick : Guarded Clear (Step serverEnv anyJson switchUci noDigest) passedWorld
      (.update (.tick ['u'] 1767268800000)) passedWorld.ticked :=
    ⟨rfl, passed_tick passedWorld rfl rfl rfl rfl rfl rfl⟩
  exact exclusive_run (.stepL hguard (.single htick))

def tickJournal : Journal :=
  { switchJournal with
    before := tickRouter.files
    after := ⟨switchAfter.raw, ['0'], some ⟨.value 1, .value 2, .value false, .missing⟩⟩ }

theorem tick_prepared : prepareJob serverEnv anyJson switchUci ⟨true, true, true⟩
    switchOff.document (.value 1) "restore".toList tickRouter = .ok tickJournal := by
  decide

/-- The router behind the queued restore. -/
def queuedWorld : World :=
  { passedWorld with
    router := tickRouter.publish tickJournal .prepared
    marks := passedWorld.marksNow }

theorem passed_queued : Step serverEnv anyJson switchUci noDigest passedWorld
    (.restore (.queue switchOff.document (.value 1) "restore".toList ⟨true, true, true⟩))
    queuedWorld := by
  refine .restore (.queue rfl rfl (by decide) ?_ tick_prepared)
  intro previous hp
  cases hp

/-- A restore is queued by a call between the tick's `guard()` and its lock. -/
theorem not_exclusive : ¬ ∀ (env : Env) (js : Json) (uci : Uci)
    (intentDigest : Mobile.Intent → Text) (router : Router) (intent : ℕ)
    (xs : List Act) (w : World),
    Run (Step env js uci intentDigest) (World.start router intent) xs w → Exclusive w := by
  intro h
  have hx := h serverEnv anyJson switchUci noDigest tickRouter 0 _ _
    (.stepL start_passed (.stepL passed_queued
      (.single (passed_tick queuedWorld rfl rfl rfl rfl rfl rfl))))
  exact hx.2.2 ⟨rfl, rfl⟩

end
end Foxhole.Maintenance
