import Foxhole.EngineStatus
import Foxhole.Maintenance

/-! `recover` of engine-service.uc: what a stopped engine job leaves behind is compared with the
job's own snapshot, and the registry is put back around the packages that are still there. -/
namespace Foxhole.Engine
open Check Text Maintenance

/-- A row of `installed`. -/
structure Package where
  name : Text
  version : Option Text
  arch : Option Text
deriving DecidableEq

/-- What `recover` reads of an engine job, and what it sets. -/
structure Job where
  jobId : Text
  state : JobState
  plan : Plan
  previousRegistry : Registry
  mutationStarted : Bool
  installedBefore : Option (List Package)
  worldBefore : Option (List Text)
  revision : ℤ
  failureReason : Option Text
  previousConnectionRestored : Option Bool
deriving DecidableEq

/-- What `recover` meets on the router: what it reads there, and how each call ends that may fail.
`%J` prints a registry in `bytes` bytes. -/
structure Site where
  guard : Except Err Unit
  lock : Except Err Unit
  worker : Except Err Unit
  idle : Except Err Unit
  packages : Except Err (List Package)
  world : Except Err (List Text)
  stored : Except Err (Option RawRegistry)
  context : Except Err Context
  principalCurrent : Except Err Bool
  generation : Except Err (Option Text)
  stop : Except Err Bool
  bytes : Registry → ℕ
  store : Except Err Unit
  contextAfter : Except Err Context
  start : Except Err Bool
  reconnects : Option Entry → Option Text → Except Err Bool
  progress : Except Err Unit
  blocked : Except Err Unit

def REASONS : List Text :=
  ["UNKNOWN_PROTOCOL", "NOT_RELEASED", "UNSUPPORTED_TARGET", "UNSUPPORTED_PROFILE_GRAPH",
    "STALE_PLAN", "STALE_SESSION", "ROUTER_UNAVAILABLE", "BUSY", "NO_SPACE",
    "AUTHENTICATION_FAILED", "DOWNLOAD_FAILED", "PACKAGE_VERIFICATION_FAILED",
    "CANDIDATE_CHECK_FAILED", "RECONNECT_FAILED", "RECOVERY_REQUIRED", "INVALID_REQUEST",
    "IN_USE"].map String.toList

/-- `packages[name]` -/
def packageAt (packages : List Package) (name : Text) : Option Package :=
  packages.find? fun row => row.name = name

/-- The packages of the slots that the plan removes. -/
def removedPackages (job : Job) : List Text :=
  (job.previousRegistry.slots.filter fun item => item.id ∈ job.plan.removals).map (·.packageName)

/-- Every package but the removed ones is as it was, and only planned ones were added. -/
def packagesKept (before after : List Package) (additions removals : List Text) : Prop :=
  (∀ item ∈ before, item.name ∉ removals → packageAt after item.name = some item) ∧
  (∀ item ∈ after, packageAt before item.name = none → item.name ∈ additions)

instance (before after : List Package) (additions removals : List Text) :
    Decidable (packagesKept before after additions removals) :=
  inferInstanceAs (Decidable (_ ∧ _))

def worldKept (before actual additions removals : List Text) : Prop :=
  (∀ pin ∈ before, pin ∉ actual → pin ∈ removals) ∧
  (∀ pin ∈ actual, pin ∉ before → pin ∈ additions)

instance (before actual additions removals : List Text) :
    Decidable (worldKept before actual additions removals) :=
  inferInstanceAs (Decidable (_ ∧ _))

/-- The registries print alike at one revision. Both were printed by `write`, which has one text
for one registry. -/
def Registry.same (value other : Registry) : Prop :=
  { value with revision := 0 } = { other with revision := 0 }

instance (value other : Registry) : Decidable (value.same other) :=
  inferInstanceAs (Decidable (_ = _))

/-- `read` of engine-registry.uc. -/
def readRegistry : Option RawRegistry → Except Err Registry
  | some raw => registry raw
  | none => .ok defaults

/-- `write` of engine-registry.uc. -/
def writeRegistry (site : Site) (value : Registry) : Except Err Registry := do
  let checked ← registry value.raw
  require (site.bytes checked ≤ 262144) .enginePackageVerificationFailed
  site.store
  return checked

/-- The previous registry, less the slots whose package is gone. -/
def restored (old current : Registry) (after : List Package) : Registry :=
  let slots := old.slots.filter fun item => (packageAt after item.packageName).isSome
  { revision := max old.revision current.revision + 1
    slots := slots
    selected := old.selected.filter fun item => slots.any fun slot => slotId slot = item.slotId }

/-- The registry to write, from the snapshot of the job and what is on the router. -/
def reconciled (site : Site) (job : Job) : Except Err Registry :=
  match job.installedBefore, job.worldBefore with
  | some before, some beforeWorld => do
    let after ← site.packages
    let additions := job.plan.artifacts.map (·.packageName)
    let removals := removedPackages job
    require (packagesKept before after additions removals) .engineRecoveryRequired
    let actual ← site.world
    require (worldKept beforeWorld actual additions removals) .engineRecoveryRequired
    let current ← site.stored >>= readRegistry
    let old := job.previousRegistry
    let planned ← commit old.raw job.plan.artifacts job.plan.removals old.revision
    require ((current.same old ∨ current.same planned) ∧ old.revision ≤ current.revision)
      .engineRecoveryRequired
    return restored old current after
  | _, _ => throw .engineRecoveryRequired

/-- Whether the connection is to be restarted around the write. -/
def restarts (site : Site) (job : Job) : Except Err Bool := do
  let context ← site.context
  let current ← site.principalCurrent
  return decide (current = true ∧ job.plan.impact = .reconnectRequired ∧
    restartAllowed job.plan.binding context)

/-- Before a restart, the generation that ran is named and the runtime is stopped. -/
def stopRuntime (site : Site) (restart : Bool) : Except Err (Option Text) :=
  if restart = false then .ok none
  else do
    let key ← site.generation
    let stopped ← site.stop
    require (stopped = true) .engineRecoveryRequired
    return key

def slotOf (written : Registry) : Option Text → Except Err (Option Entry)
  | some id => selected written.raw id
  | none => .ok none

/-- A restart ends with the proof that the connection is there again. -/
def reconnect (site : Site) (job : Job) (written : Registry) (restart : Bool)
    (key : Option Text) : Except Err Job :=
  if restart = false then .ok job
  else do
    let context ← site.contextAfter
    require (restartAllowed job.plan.binding context) .engineRecoveryRequired
    let started ← site.start
    require (started = true) .engineRecoveryRequired
    let slot ← slotOf written job.plan.binding.activeEngineId
    let proven ← site.reconnects slot key
    require (proven = true) .engineRecoveryRequired
    return { job with previousConnectionRestored := some true }

/-- `FAILED`, with a reason that clients know. -/
def Job.fail (job : Job) : Job :=
  { job with
    state := .failed
    failureReason := some (match job.failureReason with
      | some reason => if reason ∈ REASONS then reason else "ROUTER_UNAVAILABLE".toList
      | none => "ROUTER_UNAVAILABLE".toList) }

/-- The job after a recovery, and the registry that was written in it. -/
structure Recovery where
  job : Job
  written : Option Registry := none
deriving DecidableEq

/-- What is done before the registry is written, and its write. -/
def writeBack (site : Site) (job : Job) : Except Err (Registry × Bool × Option Text) := do
  let next ← reconciled site job
  let restart ← restarts site job
  let key ← stopRuntime site restart
  let written ← writeRegistry site next
  return (written, restart, key)

/-- The body of the `try` of `recover`. -/
def attempt (site : Site) (job : Job) : Recovery × Except Err Unit :=
  match site.idle with
  | .error e => (⟨job, none⟩, .error e)
  | .ok () =>
    if job.mutationStarted = false then (⟨job.fail, none⟩, site.progress)
    else
      match writeBack site job with
      | .error e => (⟨job, none⟩, .error e)
      | .ok (written, restart, key) =>
        let job := { job with revision := written.revision }
        match reconnect site job written restart key with
        | .error e => (⟨job, some written⟩, .error e)
        | .ok job => (⟨job.fail, some written⟩, site.progress)

/-- `recover(id)`; `job` is the record that is read under the lock. -/
def recover (site : Site) (id : Text) (job : Option Job) : Except Err Recovery := do
  site.guard
  site.lock
  match job with
  | none => throw .engineStalePlan
  | some job => do
    require (job.jobId = id ∧ job.state = .recoveryRequired) .engineStalePlan
    site.worker
    match attempt site job with
    | (recovery, .ok ()) => return recovery
    | (recovery, .error _) => do
      site.blocked
      return { recovery with job := { recovery.job with state := .recoveryRequired } }

variable {site : Site} {id : Text} {job : Job} {r : Recovery} {old current next written : Registry}
  {after before : List Package} {name : Text}

theorem packageAt_isSome : (packageAt after name).isSome = true ↔ name ∈ after.map (·.name) := by
  simp only [packageAt, List.find?_isSome, decide_eq_true_eq, List.mem_map]

/-- A registry and what a recovery found on the router: which job it belongs to, the installed
packages and the registry that was there. -/
structure Recovered (job : Job) (after : List Package) (current next : Registry) : Prop where
  accepted : registry next.raw = .ok next
  installed : ∀ slot ∈ next.slots, slot.packageName ∈ after.map (·.name)
  selected : ∀ row ∈ next.selected, ∃ slot ∈ next.slots, slotId slot = row.slotId ∧ slot.id = row.id
  keptSlots : (next.slots.filter fun slot => slot.packageName ∉ removedPackages job) =
    job.previousRegistry.slots.filter fun slot => slot.packageName ∉ removedPackages job
  keptSelected : ∀ row ∈ job.previousRegistry.selected,
    (∀ slot ∈ job.previousRegistry.slots, slotId slot = row.slotId →
      slot.packageName ∉ removedPackages job) → row ∈ next.selected
  onlyOld : next.slots.Sublist job.previousRegistry.slots ∧
    next.selected.Sublist job.previousRegistry.selected
  above : job.previousRegistry.revision < next.revision ∧ current.revision < next.revision

/-- A registry is written as it is, and only when `registry` takes it. -/
theorem writeRegistry_eq_ok (h : writeRegistry site next = .ok written) :
    written = next ∧ registry next.raw = .ok next := by
  simp only [writeRegistry, bind_eq_ok, require_eq_ok, pure_eq_ok] at h
  obtain ⟨checked, hchecked, _, -, _, -, rfl⟩ := h
  obtain ⟨hraw, hsound, hlen⟩ := registry_eq_ok.1 hchecked
  have hself : registry checked.raw = .ok checked := registry_eq_ok.2 ⟨rfl, hsound, hlen⟩
  have heq : next = checked := Registry.raw_injective hraw
  subst heq
  exact ⟨rfl, hself⟩

/-- The slots of packages that are not removed stay: their packages are still installed. -/
theorem restored_slots {p : Entry → Bool}
    (h : ∀ slot ∈ old.slots, p slot = true → slot.packageName ∈ after.map (·.name)) :
    (restored old current after).slots.filter p = old.slots.filter p := by
  simp only [restored, List.filter_filter]
  refine List.filter_congr fun slot hs => ?_
  cases hp : p slot with
  | false => rfl
  | true =>
    have hin := packageAt_isSome.2 (h slot hs hp)
    simp [hin]

/-- What `recover` has checked of the router when it has a registry to write. -/
theorem reconciled_eq_ok (h : reconciled site job = .ok next) : ∃ before after stored current,
    job.installedBefore = some before ∧ site.packages = .ok after ∧ site.stored = .ok stored ∧
    readRegistry stored = .ok current ∧
    packagesKept before after (job.plan.artifacts.map (·.packageName)) (removedPackages job) ∧
    job.previousRegistry.Sound ∧ next = restored job.previousRegistry current after := by
  unfold reconciled at h
  cases hb : job.installedBefore with
  | none => simp [hb] at h
  | some before =>
    cases hw : job.worldBefore with
    | none => simp [hb, hw] at h
    | some beforeWorld =>
      simp only [hb, hw, bind_eq_ok, require_eq_ok, pure_eq_ok] at h
      obtain ⟨after, hafter, _, hkept, _, -, _, -, current, ⟨stored, hstored, hcurrent⟩, planned,
        hplanned, _, -, rfl⟩ := h
      simp only [commit, bind_eq_ok] at hplanned
      obtain ⟨checked, hchecked, -⟩ := hplanned
      obtain ⟨hraw, hsound, -⟩ := registry_eq_ok.1 hchecked
      rw [← Registry.raw_injective hraw] at hsound
      exact ⟨before, after, stored, current, rfl, hafter, hstored, hcurrent, hkept, hsound, rfl⟩

/-- The registry that comes of it fits the packages, once it is accepted. -/
theorem restored_recovered {additions : List Text}
    (hkept : packagesKept before after additions (removedPackages job))
    (hold : job.previousRegistry.Sound)
    (hslots : ∀ slot ∈ job.previousRegistry.slots, slot.packageName ∈ before.map (·.name))
    (hr : registry (restored job.previousRegistry current after).raw =
      .ok (restored job.previousRegistry current after)) :
    Recovered job after current (restored job.previousRegistry current after) := by
  obtain ⟨-, hsound, -⟩ := registry_eq_ok.1 hr
  have hstay : ∀ slot ∈ job.previousRegistry.slots, slot.packageName ∉ removedPackages job →
      slot.packageName ∈ after.map (·.name) := by
    intro slot hs hn
    obtain ⟨item, hitem, hname⟩ := List.mem_map.1 (hslots slot hs)
    have hfind := hkept.1 item hitem (by rw [hname]; exact hn)
    rw [← hname]
    exact packageAt_isSome.1 (by rw [hfind]; rfl)
  refine ⟨hr, ?_, fun row hrow => (hsound.selected row hrow).2, ?_, ?_,
    ⟨List.filter_sublist, List.filter_sublist⟩, ?_, ?_⟩
  · intro slot hs
    exact packageAt_isSome.1 (List.mem_filter.1 hs).2
  · exact restored_slots fun slot hs hp => hstay slot hs (by simpa using hp)
  · intro row hrow hn
    -- the slot that the row selects is among the slots that stay
    obtain ⟨-, slot, hs, hkey, -⟩ := hold.selected row hrow
    have hin := hstay slot hs (hn slot hs hkey)
    refine List.mem_filter.2 ⟨hrow, ?_⟩
    simp only [List.any_eq_true, decide_eq_true_eq]
    exact ⟨slot, List.mem_filter.2 ⟨hs, packageAt_isSome.2 hin⟩, hkey⟩
  · show _ < max _ _ + 1
    omega
  · show _ < max _ _ + 1
    omega

theorem writeBack_eq_ok {restart : Bool} {key : Option Text}
    (h : writeBack site job = .ok (written, restart, key)) :
    reconciled site job = .ok written ∧ registry written.raw = .ok written := by
  simp only [writeBack, bind_eq_ok, pure_eq_ok, Prod.mk.injEq] at h
  obtain ⟨next, hnext, _, -, _, -, w, hw, rfl, -, -⟩ := h
  obtain ⟨rfl, hself⟩ := writeRegistry_eq_ok hw
  exact ⟨hnext, hself⟩

/-- An attempt that gets to its end after a mutation has written a registry. -/
theorem attempt_eq_ok (hm : job.mutationStarted = true) {u : Unit}
    (h : attempt site job = (r, .ok u)) : ∃ written, r.written = some written ∧
      reconciled site job = .ok written ∧ registry written.raw = .ok written := by
  unfold attempt at h
  cases hidle : site.idle with
  | error e =>
    rw [hidle] at h
    cases h
  | ok _ =>
    rw [hidle] at h
    dsimp only at h
    rw [if_neg (by simp [hm])] at h
    cases hw : writeBack site job with
    | error e =>
      rw [hw] at h
      cases h
    | ok done =>
      obtain ⟨written, restart, key⟩ := done
      refine ⟨written, ?_, writeBack_eq_ok hw⟩
      rw [hw] at h
      dsimp only at h
      split at h
      · cases h
      · injection h with h _
        rw [← h]

/-- A recovery that ends in `FAILED` got to the end of its attempt. -/
theorem recover_failed (h : recover site id (some job) = .ok r) (hf : r.job.state = .failed) :
    attempt site job = (r, .ok ()) := by
  simp only [recover, bind_eq_ok, require_eq_ok] at h
  obtain ⟨_, -, _, -, _, -, _, -, h⟩ := h
  cases ha : attempt site job with
  | mk recovery outcome =>
    cases outcome with
    | ok _ =>
      simp only [ha, pure_eq_ok] at h
      rw [h]
    | error e =>
      simp only [ha, bind_eq_ok, pure_eq_ok] at h
      obtain ⟨_, -, rfl⟩ := h
      cases hf

/-- Wherever the job stopped, and whatever the router holds now: a recovery that ends in `FAILED`
after a mutation has written a registry around the packages that are installed. -/
theorem recover_consistent (h : recover site id (some job) = .ok r)
    (hm : job.mutationStarted = true)
    (hslots : ∀ before, job.installedBefore = some before →
      ∀ slot ∈ job.previousRegistry.slots, slot.packageName ∈ before.map (·.name))
    (hf : r.job.state = .failed) : ∃ after stored current written, site.packages = .ok after ∧
      site.stored = .ok stored ∧ readRegistry stored = .ok current ∧
      r.written = some written ∧ Recovered job after current written := by
  obtain ⟨written, hwritten, hrec, hself⟩ := attempt_eq_ok hm (recover_failed h hf)
  obtain ⟨before, after, stored, current, hb, hafter, hstored, hcurrent, hkept, hold, rfl⟩ :=
    reconciled_eq_ok hrec
  exact ⟨after, stored, current, _, hafter, hstored, hcurrent, hwritten,
    restored_recovered hkept hold (hslots before hb) hself⟩

/-! A removal that was cut off after apk had purged the package. -/

def httpEngine : Text := ['h', 't', 't', 'p']

def twoEngines : Registry where
  revision := 2
  slots := [packageOf vless 0, packageOf httpEngine 1]
  selected := [⟨vless, slotId (packageOf vless 0)⟩, ⟨httpEngine, slotId (packageOf httpEngine 1)⟩]

def removal : Draft := ({} : Draft).remove vless (some (packageOf vless 0))

def removalPlan : Plan where
  routerId := roomyContext.routerId
  planId := "engine-plan-".toList ++ (digestOf 1).take 32
  revision := 2
  bootId := roomyContext.bootId
  createdAtUptimeMs := 1000
  expiresAtUptimeMs := 1000 + 300000
  operation := .remove
  engineIds := [vless]
  changes := removal.changes
  budget := removal.budget roomyContext
  impact := removal.impact
  warnings := []
  owner := digestOf 0
  binding := roomyContext.binding
  artifacts := []
  removals := removal.removals
  planSha256 := some []

def packageRow (slot : Entry) : Package where
  name := slot.packageName
  version := some slot.packageVersion
  arch := some slot.architecture

def cutOff : Job where
  jobId := "engine-job-".toList ++ (digestOf 2).take 32
  state := .recoveryRequired
  plan := removalPlan
  previousRegistry := twoEngines
  mutationStarted := true
  installedBefore := some [packageRow (packageOf vless 0), packageRow (packageOf httpEngine 1)]
  worldBefore := some [packageName vless 0, packageName httpEngine 1]
  revision := 2
  failureReason := none
  previousConnectionRestored := none

def halfRemoved : Site where
  guard := .ok ()
  lock := .ok ()
  worker := .ok ()
  idle := .ok ()
  packages := .ok [packageRow (packageOf httpEngine 1)]
  world := .ok [packageName httpEngine 1]
  stored := .ok (some twoEngines.raw)
  context := .ok roomyContext
  principalCurrent := .ok true
  generation := .ok none
  stop := .ok true
  -- the length of the one registry that is printed
  bytes := fun _ => 1593
  store := .ok ()
  contextAfter := .ok roomyContext
  start := .ok true
  reconnects := fun _ _ => .ok true
  progress := .ok ()
  blocked := .ok ()

def recoveredEngines : Registry where
  revision := 3
  slots := [packageOf httpEngine 1]
  selected := [⟨httpEngine, slotId (packageOf httpEngine 1)⟩]

theorem halfRemoved_ends : recover halfRemoved cutOff.jobId (some cutOff) =
    .ok ⟨{ cutOff with revision := 3 }.fail, some recoveredEngines⟩ := by
  decide +kernel

/-- The engine whose package is gone leaves the registry, the other one stays selected. -/
theorem recover_half_removed : ∃ after stored current written,
    halfRemoved.packages = .ok after ∧ halfRemoved.stored = .ok stored ∧
    readRegistry stored = .ok current ∧ some recoveredEngines = some written ∧
    Recovered cutOff after current written :=
  recover_consistent halfRemoved_ends rfl
    (fun before hb => by
      obtain rfl := Option.some.inj hb
      decide) rfl

end Foxhole.Engine
