import Foxhole.MaintenanceExclusion
import Foxhole.StateWrites

/-! An accepted Stop stays: no plan or journal from before it brings the connection back. -/
namespace Foxhole.Maintenance
open Check Text Trace Backup

/-- activeServerId of state.json is null. -/
def World.off (w : World) : Prop := w.router.disk.state.activeServerId = .missing

/-- The plan whose runtime start a step issues. -/
def World.started (w : World) : Act → Option Plan
  | .engine .start => w.engine.map (·.plan)
  | .worker id .start => (w.workers id).bind fun worker => worker.job.plan
  | _ => none

/-- A start that was asked for, or the commit of a restore queued since: it writes the state with
its second write. -/
def Disturbs (queued : List Text) : Act → Prop
  | .call (.startServer _) _ => True
  | .restore (.commit id count) => id ∈ queued ∧ 2 ≤ count
  | _ => False

/-- The restores queued so far. -/
def enqueue (queued : List Text) : Act → List Text
  | .restore (.queue _ _ id _) => id :: queued
  | _ => queued

/-- None of the steps disturbs a Stop right before them. -/
def Undisturbed : List Text → List Act → Prop
  | _, [] => True
  | queued, act :: acts => ¬ Disturbs queued act ∧ Undisturbed (enqueue queued act) acts

/-- Every plan, and the journal, carries an intent that has been reached. -/
structure Planned (w : World) : Prop where
  plans : ∀ plan ∈ w.plans, plan.binding.stopIntent ≤ w.intent
  marks : w.marks.stopIntentBefore ≤ w.intent

/-- What a Stop at intent `since` leaves: the router is off and the journal is from before, or
queued since. -/
structure Stopped (since : ℕ) (queued : List Text) (w : World) : Prop where
  off : w.off
  raised : since < w.intent
  journal : ∀ journal, w.router.journal = some journal →
    w.marks.stopIntentBefore ≤ since ∨ journal.id ∈ queued

section
variable {env : Env} {js : Json} {uci : Uci} {intentDigest : Mobile.Intent → Text}
  {w s t u : World} {id : Text} {act : Act} {xs ys : List Act} {since : ℕ} {queued : List Text}

theorem planned_start (router : Router) (intent : ℕ) : Planned (World.start router intent) := by
  constructor <;> simp [World.start]

theorem bound_intent {plan : Plan} (h : w.Bound env plan) : plan.binding.stopIntent = w.intent := by
  obtain ⟨around, context, ⟨state, -, rfl⟩, he⟩ := h
  rw [he]
  rfl

theorem mayStart_intent {plan : Plan} (h : w.MayStart env plan) :
    plan.binding.stopIntent = w.intent := by
  obtain ⟨-, around, context, ⟨state, -, rfl⟩, hr⟩ := h
  exact hr.2.2.2.2

theorem Planned.cons {plan : Plan} (h : Planned w) (hb : w.Bound env plan) :
    ∀ p ∈ plan :: w.plans, p.binding.stopIntent ≤ w.intent := by
  intro p hp
  rcases List.mem_cons.1 hp with rfl | hp
  · exact le_of_eq (bound_intent hb)
  · exact h.plans p hp

theorem step_planned (h : Step env js uci intentDigest w act t) (hp : Planned w) : Planned t := by
  cases h with
  | call | guard => exact ⟨hp.plans, hp.marks⟩
  | stop | stopCut =>
    refine ⟨fun plan hm => ?_, ?_⟩
    · have hle := hp.plans plan hm
      show plan.binding.stopIntent ≤ ((w.intent + 1 : ℕ) : ℤ)
      omega
    · have hle := hp.marks
      show w.marks.stopIntentBefore ≤ w.intent + 1
      omega
  | engine h =>
    cases h with
    | plan _ _ _ hb => exact ⟨hp.cons hb, hp.marks⟩
    | _ => exact ⟨hp.plans, hp.marks⟩
  | update h =>
    cases h with
    | plan _ _ _ _ hb => exact ⟨hp.cons hb, hp.marks⟩
    | _ => exact ⟨hp.plans, hp.marks⟩
  | worker h =>
    cases h with
    | convert _ _ _ _ _ _ _ _ _ hb => exact ⟨hp.cons hb, hp.marks⟩
    | _ => exact ⟨hp.plans, hp.marks⟩
  | restore h =>
    cases h with
    | queue => exact ⟨hp.plans, le_refl _⟩
    | _ => exact ⟨hp.plans, hp.marks⟩

/-- A runtime start is bound to the intent of its moment. -/
theorem started_intent {plan : Plan} (h : Step env js uci intentDigest w act t)
    (hs : w.started act = some plan) : plan.binding.stopIntent = w.intent := by
  cases h with
  | engine h =>
    cases h with
    | start _ hj hm =>
      simp only [World.started, hj, Option.map_some, Option.some.injEq] at hs
      rw [← hs]
      exact mayStart_intent hm
    | _ => cases hs
  | worker h =>
    cases h with
    | start hj _ hplan hm =>
      simp only [World.started, hj, Option.bind_some, hplan, Option.some.injEq] at hs
      rw [← hs]
      exact mayStart_intent hm
    | _ => cases hs
  | _ => cases hs

theorem step_intent (h : Step env js uci intentDigest w act t) : w.intent ≤ t.intent := by
  cases h with
  | stop | stopCut => exact Nat.le_succ _
  | call | guard => exact le_refl _
  | engine h => cases h <;> exact le_refl _
  | update h => cases h <;> exact le_refl _
  | worker h => cases h <;> exact le_refl _
  | restore h => cases h <;> exact le_refl _

theorem run_intent (h : Run (Step env js uci intentDigest) w xs t) : w.intent ≤ t.intent :=
  h.invariant (I := fun v => w.intent ≤ v.intent)
    (fun _ _ _ hi hs => le_trans hi (step_intent hs)) (le_refl _)

/-! What the calls and the restore do to the active server. -/

theorem perform_off {out : Outside} {disk disk' : Disk} {request : Rpc.Request}
    (h : Rpc.perform env intentDigest out disk request = .ok disk')
    (hn : ∀ args, request ≠ .startServer args) (hoff : disk.state.activeServerId = .missing) :
    disk'.state.activeServerId = .missing := by
  rcases Rpc.perform_written h with he | ⟨before, after, hw⟩
  · rw [he]
    exact hoff
  · have hb := (Rpc.validateState_marks hw.read).2
    rw [hoff] at hb
    have hnone : before.activeServerId = none := by
      cases hc : before.activeServerId with
      | none => rfl
      | some a =>
        rw [hc] at hb
        cases hb
    have ha : after.activeServerId = none := by
      rcases hw.active hn with ha | ha
      · rw [ha, hnone]
      · exact ha
    rw [hw.written]
    simp [State.raw, ha, Field.ofOption]

theorem stop_off {out : Outside} {disk disk' : Disk} {revision : Field ℤ}
    (h : Rpc.perform env intentDigest out disk (.stopServer revision) = .ok disk') :
    disk'.state.activeServerId = .missing := by
  simp only [Rpc.perform, Rpc.stopServer, bind_eq_ok] at h
  obtain ⟨state, hst, h⟩ := h
  obtain ⟨before, hb, -, ha⟩ := Rpc.stateRecord_marks (Rpc.stateForRevocation_record hst)
  split at h
  · rename_i hnone
    cases h
    rw [(Rpc.validateState_marks hb).2, ← ha, hnone]
    rfl
  · cases h
    rfl

theorem prepareJob_id {setting : Setting} {document : Document} {expected : Field ℤ}
    {router : Router} {journal : Journal}
    (h : prepareJob env js uci setting document expected id router = .ok journal) :
    journal.id = id := by
  simp only [prepareJob, bind_eq_ok, pure_eq_ok] at h
  obtain ⟨-, -, -, -, -, -, live, -, -, -, value, -, -, -, ⟨revision, current⟩, -, -, -,
    -, -, config,
    -, rfl⟩ := h
  rfl

theorem rollback_disk (journal : Journal) (router : Router) :
    (rollbackProductFiles journal router).1.disk = router.disk := by
  unfold rollbackProductFiles
  split
  · simp only
    split <;> rfl
  · rfl

section
variable {β : Type} {f : Journal → β} (hf : ∀ journal phase, f { journal with phase } = f journal)
include hf

theorem cancel_frame (journal : Journal) (router : Router) :
    (cancel journal router).disk = router.disk ∧
      (cancel journal router).journal.map f = some (f journal) :=
  ⟨rollback_disk journal router, congrArg some (hf journal _)⟩

/-- Recovery writes neither state.json nor more of the journal than its phase. -/
theorem recover_frame (env : Env) (router : Router) :
    (Backup.recover env router).disk = router.disk ∧
      (Backup.recover env router).journal.map f = router.journal.map f := by
  unfold Backup.recover
  split
  · exact ⟨rfl, rfl⟩
  · rename_i journal hj
    split
    · exact ⟨rfl, rfl⟩
    · rw [hj]
      unfold settle
      split
      · exact ⟨rfl, congrArg some (hf journal _)⟩
      · split
        · exact cancel_frame hf journal router
        · split
          · exact ⟨rfl, congrArg some (hf journal _)⟩
          · split
            · exact cancel_frame hf journal router
            · exact ⟨rfl, congrArg some (hf journal _)⟩

theorem commit_frame {journal : Journal} {router : Router} (hj : router.journal = some journal)
    (count : ℕ) :
    ((commitWrites.take count).foldl (Write.perform journal) router).journal.map f =
        router.journal.map f ∧
      (count < 2 → ((commitWrites.take count).foldl (Write.perform journal) router).disk =
        router.disk) := by
  rw [hj]
  rcases count with - | - | - | count
  · exact ⟨by simp [hj], fun _ => rfl⟩
  · exact ⟨congrArg some (hf journal _), fun _ => rfl⟩
  · exact ⟨congrArg some (hf journal _), fun h => absurd h (by omega)⟩
  · refine ⟨?_, fun h => absurd h (by omega)⟩
    simp [commitWrites, Write.perform, Router.publish, hf]

end

/-- A step that leaves state.json alone, and the journal with its marks. -/
theorem Stopped.frame (hs : Stopped since queued w) (hdisk : t.router.disk = w.router.disk)
    (hj : t.router.journal.map (·.id) = w.router.journal.map (·.id)) (hm : t.marks = w.marks)
    (hi : w.intent ≤ t.intent) : Stopped since queued t := by
  refine ⟨?_, lt_of_lt_of_le hs.raised hi, fun journal htj => ?_⟩
  · unfold World.off
    rw [hdisk]
    exact hs.off
  · rw [htj] at hj
    obtain ⟨previous, hp, hid⟩ := Option.map_eq_some_iff.1 hj.symm
    have he : previous.id = journal.id := hid
    rw [hm, ← he]
    exact hs.journal previous hp

theorem engineStep_marks {act : EngineAct} (h : EngineStep env w act t) : t.marks = w.marks := by
  cases h <;> rfl

theorem updateStep_marks {act : UpdateAct} (h : UpdateStep env w act t) :
    t.marks = w.marks ∧ t.router.disk = w.router.disk := by
  cases h <;> exact ⟨rfl, rfl⟩

theorem workerStep_marks {act : WorkerAct} (h : WorkerStep env id w act t) : t.marks = w.marks := by
  cases h <;> rfl

theorem restoreStep_stopped {act : RestoreAct} (h : RestoreStep env js uci w act t)
    (hd : ¬ Disturbs queued (.restore act)) (hs : Stopped since queued w) :
    Stopped since (enqueue queued (.restore act)) t := by
  cases h with
  | @queue document expected id setting journal _ _ _ _ hp =>
    refine ⟨hs.off, hs.raised, ?_⟩
    rintro journal' ⟨⟩
    right
    rw [prepareJob_id hp]
    exact List.mem_cons_self
  | beginRun | finish | die => exact hs.frame rfl rfl rfl (le_refl _)
  | apply _ hj | config _ hj | policy _ hj =>
    exact hs.frame rfl (by simp [World.hold, Router.publish, Write.perform, hj]) rfl (le_refl _)
  | @commit journal count _ hj hm _ _ =>
    obtain ⟨hid, hdisk⟩ := @commit_frame _ Journal.id (fun _ _ => rfl) _ _ hj count
    by_cases hc : count < 2
    · exact hs.frame (hdisk hc) hid rfl (le_refl _)
    · -- a journal from before the Stop carries an intent that is past
      have hq : journal.id ∉ queued := fun hq => hd ⟨hq, by omega⟩
      rcases hs.journal journal hj with hle | hin
      · have heq : w.intent = w.marks.stopIntentBefore :=
          congrArg Marks.stopIntentBefore hm.1
        have hraised := hs.raised
        omega
      · exact absurd hin hq
  | fail | recover =>
    obtain ⟨hdisk, hid⟩ := @recover_frame _ Journal.id (fun _ _ => rfl) env w.router
    exact hs.frame hdisk hid rfl (le_refl _)

theorem step_stopped (h : Step env js uci intentDigest w act t) (hd : ¬ Disturbs queued act)
    (hs : Stopped since queued w) : Stopped since (enqueue queued act) t := by
  have hi := step_intent h
  cases h with
  | call _ hp =>
    refine ⟨perform_off hp ?_ hs.off, hs.raised, hs.journal⟩
    rintro args rfl
    exact hd trivial
  | stop _ hp => exact ⟨stop_off hp, lt_of_lt_of_le hs.raised hi, hs.journal⟩
  | stopCut | guard => exact hs.frame rfl rfl rfl hi
  | engine h =>
    obtain ⟨-, -, -, -, hr⟩ := engineStep_frame h
    exact hs.frame (by rw [hr]) (by rw [hr]) (engineStep_marks h) hi
  | update h =>
    obtain ⟨-, -, hj⟩ := updateStep_frame h
    exact hs.frame (updateStep_marks h).2 (by rw [hj]) (updateStep_marks h).1 hi
  | worker h =>
    obtain ⟨-, hr⟩ := workerStep_frame h
    exact hs.frame (by rw [hr]) (by rw [hr]) (workerStep_marks h) hi
  | restore h => exact restoreStep_stopped h hd hs

theorem run_stopped (h : Run (Step env js uci intentDigest) w xs t) (hd : Undisturbed queued xs)
    (hs : Stopped since queued w) : t.off := by
  induction h generalizing queued with
  | refl => exact hs.off
  | stepL h _ ih => exact ih hd.2 (step_stopped h hd.1 hs)

/-- Once a Stop is accepted the router stays off until a Start is accepted or a restore queued since
is committed, and no worker ever starts the runtime for a plan that was there before the Stop. -/
theorem stop_sticks {router : Router} {intent : ℕ} {revision : Field ℤ} {out : Outside}
    (hrun : Run (Step env js uci intentDigest) (World.start router intent) xs s)
    (hstop : Step env js uci intentDigest s (.call (.stopServer revision) out) t)
    (hlater : Run (Step env js uci intentDigest) t ys u) :
    (Undisturbed [] ys → u.off) ∧
      ∀ act v plan, Step env js uci intentDigest u act v → u.started act = some plan →
        plan ∉ s.plans ∧ (s.intent : ℤ) < plan.binding.stopIntent := by
  have hplanned : Planned s :=
    hrun.invariant (I := Planned) (fun _ _ _ hp hs => step_planned hs hp)
      (planned_start router intent)
  have hraised : t.intent = s.intent + 1 := by
    cases hstop with
    | call hn => exact absurd rfl (hn revision)
    | stop => rfl
  constructor
  · intro hd
    have hstopped : Stopped s.intent [] t := by
      refine ⟨?_, by omega, fun journal _ => Or.inl ?_⟩
      · cases hstop with
        | call hn => exact absurd rfl (hn revision)
        | stop _ hp => exact stop_off hp
      · cases hstop with
        | call hn => exact absurd rfl (hn revision)
        | stop => exact hplanned.marks
    exact run_stopped hlater hd hstopped
  · intro act v plan hs hplan
    have hnow := started_intent hs hplan
    have hle := run_intent hlater
    have hlt : (s.intent : ℤ) < plan.binding.stopIntent := by omega
    refine ⟨fun hm => ?_, hlt⟩
    have hpast := hplanned.plans plan hm
    omega

/-- What is around the router while an engine is installed. -/
def plainAround : Around where
  routerId := []
  architecture := []
  bootId := []
  worldSha256 := []
  catalogSha256 := []
  generation _ := none
  legacyProtocols := []
  flashAvailableBytes := 0
  ramAvailableBytes := 0

/-- A plan that ends with a reconnect. -/
def enginePlan : Plan where
  planId := ['p']
  binding := (snapshotContext serverEnv plainAround activeState 0).binding
  impact := .reconnectRequired

/-- The active router with a plan, a job for it and an engine worker that has begun. -/
def workingWorld : World :=
  { World.start switchRouter 0 with
    plans := [enginePlan]
    engine := some { jobId := ['e'], plan := enginePlan, state := .verifying }
    holder := some .engineRun }

theorem start_working : Run (Step serverEnv anyJson switchUci noDigest) (World.start switchRouter 0)
    [.engine (.plan enginePlan), .engine (.apply ['e'] enginePlan), .guard (.engineRun ['e']),
      .engine (.beginRun ['e'])] workingWorld := by
  have hvalid : Model.validateState serverEnv activeState.raw = .ok activeState := by decide
  have hbound (w : World) (hrouter : w.router.disk.state = activeState.raw)
      (hintent : w.intent = 0) :
      w.Bound serverEnv enginePlan :=
    ⟨plainAround, _, ⟨activeState, by rw [hrouter]; exact hvalid, rfl⟩, by rw [hintent]; rfl⟩
  refine .stepL (.engine (.plan rfl rfl rfl (hbound _ rfl rfl))) ?_
  refine .stepL (.engine (.apply rfl rfl rfl rfl List.mem_cons_self (hbound _ rfl rfl))) ?_
  refine .stepL (.guard rfl) (.single (.engine ?_))
  exact @EngineStep.beginRun serverEnv _ { jobId := ['e'], plan := enginePlan }
    List.mem_cons_self rfl rfl rfl rfl

/-- A Stop of the active router, under the worker's hands. -/
def offWorld : World :=
  { workingWorld with
    router := workingWorld.router.write (stopped true activeState).raw
    intent := 1 }

theorem stop_working : Step serverEnv anyJson switchUci noDigest workingWorld
    (.call (.stopServer (.value 1)) (switchOutside true)) offWorld := by
  have hstop : Rpc.perform serverEnv noDigest (switchOutside true) switchRouter.disk
      (.stopServer (.value 1)) = .ok (switchRouter.write (stopped true activeState).raw).disk := by
    decide
  exact .stop (w := workingWorld) (by decide) hstop

/-- The worker goes on, and cannot bring the connection back. -/
theorem stop_sticks_working : ∃ u,
    Run (Step serverEnv anyJson switchUci noDigest) offWorld
      [.engine (.progress .installing true), .engine (.progress .reconnecting false)] u ∧
    u.off ∧ ∀ v, ¬ Step serverEnv anyJson switchUci noDigest u (.engine .start) v := by
  obtain ⟨u, hrun, hengine⟩ : ∃ u, Run (Step serverEnv anyJson switchUci noDigest) offWorld
      [.engine (.progress .installing true), .engine (.progress .reconnecting false)] u ∧
      u.engine.map (·.plan) = some enginePlan :=
    ⟨_, .stepL (.engine (.progress rfl rfl rfl)) (.single (.engine (.progress rfl rfl rfl))), rfl⟩
  have h := stop_sticks start_working stop_working hrun
  refine ⟨u, hrun, h.1 ⟨fun hd => hd, fun hd => hd, trivial⟩, fun v hstart => ?_⟩
  exact (h.2 _ v enginePlan hstart hengine).1 List.mem_cons_self

end
end Foxhole.Maintenance
