import Foxhole.BackupService

/-! A restore that crashes and is recovered leaves all files from before or all from after, but for
a Stop that copies the standalone switch. -/
namespace Foxhole.Backup
open Check Text Trace

variable {env : Env} {js : Json} {uci : Uci} {intentDigest : Mobile.Intent → Text}
  {setting : Setting} {document : Document} {expected : Field ℤ} {id : Text}
  {router router' r : Router} {journal : Journal} {state live after : State} {phase : Phase}
  {calls : List (Rpc.Request × Outside)} {count : ℕ}

/-- The file is the image, but for the active server and the revision. -/
def UpToStop (env : Env) (image file : RawState) : Prop :=
  ∃ s t, Model.validateState env image = .ok s ∧ Model.validateState env file = .ok t ∧
    withoutStop t = withoutStop s

/-- The journal has ended, and the files are those of its end. -/
def Consistent (env : Env) (journal : Journal) (router : Router) : Prop :=
  ∃ phase, router.journal = some { journal with phase } ∧
    ((phase = .committed ∧ router.config = journal.after.config ∧
        router.policy = journal.after.policy ∧
        UpToStop env journal.after.state router.disk.state) ∨
      (phase = .cancelled ∧ router.config = journal.before.config ∧
        router.policy = journal.before.policy ∧
        UpToStop env journal.before.state router.disk.state) ∨
      phase = .recoveryRequired)

/-! What Stop does to the state. -/

/-- The state Stop writes under the standalone switch of the configuration. -/
def stopped (access : Bool) (state : State) : State :=
  { setAccess state access with activeServerId := none, revision := state.revision + 1 }

theorem stopped_ok (access : Bool) (h : state.Ok env) : (stopped access state).Ok env :=
  ⟨Rpc.policy_ok_settings h.policy _, h.servers, by simp [stopped], h.clients⟩

/-- Stop is no more than a Stop exactly when the switch is the one the state has. -/
theorem withoutStop_stopped {access : Bool} :
    withoutStop (stopped access state) = withoutStop state ↔
      access = state.settings.standaloneAccess := by
  constructor
  · intro h
    exact congrArg (fun s : State => s.settings.standaloneAccess) h
  · rintro rfl
    rfl

theorem stop_call {revision : Field ℤ} {out : Outside}
    (h : Call env uci intentDigest router (.stopServer revision, out) router')
    (hv : Model.validateState env router.disk.state = .ok state) :
    (state.activeServerId = none ∧ router' = router) ∨
      (state.activeServerId ≠ none ∧
        router' = router.write (stopped (uci.access router.config) state).raw) := by
  cases h with
  | call _ hout _ hp =>
    simp only [Rpc.perform, Rpc.stopServer, Rpc.stateForRevocation, Rpc.stateRecord, hv, bind_eq_ok,
      pure_eq_ok] at hp
    obtain ⟨s, ⟨_, -, _, ⟨_, ⟨⟩, rfl⟩, -, -, rfl⟩, hp⟩ := hp
    split at hp
    · rename_i hnone
      cases hp
      exact Or.inl ⟨hnone, rfl⟩
    · rename_i hsome
      cases hp
      refine Or.inr ⟨hsome, ?_⟩
      rw [← hout]
      rfl

def Stops (calls : List (Rpc.Request × Outside)) : Prop :=
  ∀ call ∈ calls, ∃ revision, call.1 = .stopServer revision

/-- Without an active server Stop changes nothing. -/
theorem stops_idle (h : Run (Call env uci intentDigest) router calls r) (hs : Stops calls)
    (hv : Model.validateState env router.disk.state = .ok state)
    (hidle : state.activeServerId = none) : r = router := by
  induction h with
  | refl => rfl
  | @stepL router mid _ call calls h _ ih =>
    obtain ⟨request, out⟩ := call
    obtain ⟨revision, rfl⟩ : ∃ revision, request = .stopServer revision := hs _ List.mem_cons_self
    rcases stop_call h hv with ⟨-, rfl⟩ | ⟨hactive, -⟩
    · exact ih (fun c hc => hs c (List.mem_cons_of_mem _ hc)) hv
    · exact absurd hidle hactive

/-- Of several Stops the first one writes, and only if a server is active. -/
theorem stops_run (h : Run (Call env uci intentDigest) router calls r) (hs : Stops calls)
    (hv : Model.validateState env router.disk.state = .ok state) :
    (r = router ∧ (calls = [] ∨ state.activeServerId = none)) ∨
      (calls ≠ [] ∧ state.activeServerId ≠ none ∧
        r = router.write (stopped (uci.access router.config) state).raw) := by
  cases h with
  | refl => exact Or.inl ⟨rfl, Or.inl rfl⟩
  | @stepL _ mid _ call calls hstep hrest =>
    obtain ⟨request, out⟩ := call
    obtain ⟨revision, rfl⟩ : ∃ revision, request = .stopServer revision := hs _ List.mem_cons_self
    have htail : Stops calls := fun c hc => hs c (List.mem_cons_of_mem _ hc)
    rcases stop_call hstep hv with ⟨hidle, rfl⟩ | ⟨hactive, rfl⟩
    · exact Or.inl ⟨stops_idle hrest htail hv hidle, Or.inr hidle⟩
    · have hok : (stopped (uci.access router.config) state).Ok env :=
        stopped_ok _ (Model.validateState_ok hv)
      exact Or.inr ⟨by simp, hactive,
        stops_idle hrest htail (Model.validateState_raw hok) rfl⟩

/-! Where a crash may have left the router. -/

/-- Up to the fourth write the state is untouched and the product files are of either side. -/
theorem crash_early (journal : Journal) (router : Router) (hb : journal.before = router.files)
    (h1 : 1 ≤ count) (h4 : count ≤ 4) :
    ∃ phase, (phase = .prepared ∨ phase = .applying) ∧
      (crash journal router count).journal = some { journal with phase } ∧
      (crash journal router count).disk = router.disk ∧
      Mixed journal (crash journal router count) := by
  have hfiles : router.config = journal.before.config ∧ router.policy = journal.before.policy := by
    rw [hb]
    exact ⟨rfl, rfl⟩
  interval_cases count
  · exact ⟨.prepared, Or.inl rfl, rfl, rfl, Or.inl hfiles.1, Or.inl hfiles.2⟩
  · exact ⟨.applying, Or.inr rfl, rfl, rfl, Or.inl hfiles.1, Or.inl hfiles.2⟩
  · exact ⟨.applying, Or.inr rfl, rfl, rfl, Or.inr rfl, Or.inl hfiles.2⟩
  · exact ⟨.applying, Or.inr rfl, rfl, rfl, Or.inr rfl, Or.inr rfl⟩

/-- From the fifth write on the product files are those from after. -/
theorem crash_late (journal : Journal) (router : Router) (h5 : 5 ≤ count) (h7 : count ≤ 7) :
    (crash journal router count).journal =
        some { journal with phase := if count = 7 then .committed else .stateCommitting } ∧
      (crash journal router count).disk.state =
        (if count = 5 then router.disk.state else journal.after.state) ∧
      (crash journal router count).config = journal.after.config ∧
      (crash journal router count).policy = journal.after.policy := by
  interval_cases count <;> exact ⟨rfl, rfl, rfl, rfl⟩

/-! Recovery from STATE_COMMITTING is consistent whatever Stop has written. -/

theorem afterImage_upToStop (hp : Prepared env uci router live after journal)
    (hv : Model.validateState env r.disk.state = .ok state)
    (h : afterImage journal r state = true) : UpToStop env journal.after.state r.disk.state := by
  have hafter : Model.validateState env journal.after.state = .ok after := by
    rw [hp.after_state]
    exact Model.validateState_raw hp.after_ok
  simp only [afterImage, Bool.or_eq_true, Bool.and_eq_true, decide_eq_true_eq] at h
  rcases h with heq | ⟨⟨-, hws⟩, -⟩
  · rw [heq]
    exact ⟨after, after, hafter, hafter, rfl⟩
  · exact ⟨after, state, hafter, hv, hws.trans hp.afterWithoutStop⟩

theorem beforeImage_upToStop (hp : Prepared env uci router live after journal)
    (hv : Model.validateState env r.disk.state = .ok state)
    (h : beforeImage journal r state = true) : UpToStop env journal.before.state r.disk.state := by
  have hbefore : Model.validateState env journal.before.state = .ok live := by
    rw [hp.before_files]
    exact hp.live_valid
  simp only [beforeImage, Bool.or_eq_true, Bool.and_eq_true, decide_eq_true_eq] at h
  rcases h with heq | ⟨-, hws⟩
  · rw [heq]
    exact ⟨live, live, hbefore, hbefore, rfl⟩
  · exact ⟨live, state, hbefore, hv, hws.trans hp.beforeWithoutStop⟩

theorem settle_consistent (hp : Prepared env uci router live after journal)
    (hv : Model.validateState env r.disk.state = .ok state)
    (hc : r.config = journal.after.config) (hpol : r.policy = journal.after.policy) :
    Consistent env journal (settle env { journal with phase := .stateCommitting } r) := by
  have hprod : productsAfter { journal with phase := .stateCommitting } r = true := by
    simp [productsAfter, hc, hpol]
  have hmixed : Mixed { journal with phase := .stateCommitting } r := ⟨Or.inr hc, Or.inr hpol⟩
  cases ha : afterImage { journal with phase := .stateCommitting } r state with
  | true =>
    rw [settle_after hv rfl hprod ha]
    exact ⟨.committed, rfl, Or.inl ⟨rfl, hc, hpol, afterImage_upToStop hp hv ha⟩⟩
  | false =>
    cases hb : beforeImage { journal with phase := .stateCommitting } r state with
    | true =>
      rw [settle_before hv rfl hmixed ha hb]
      exact ⟨.cancelled, rfl, Or.inr (Or.inl ⟨rfl, rfl, rfl, beforeImage_upToStop hp hv hb⟩)⟩
    | false =>
      rw [settle_lost hv rfl ha hb]
      exact ⟨.recoveryRequired, rfl, Or.inr (Or.inr rfl)⟩

/-- Before STATE_COMMITTING recovery always cancels; what it leaves is consistent when the state is
the one from before up to Stop. -/
theorem recover_early (hv : Model.validateState env r.disk.state = .ok state)
    (hphase : phase = .prepared ∨ phase = .applying)
    (hj : r.journal = some { journal with phase }) (hm : Mixed journal r) :
    Consistent env journal (recover env r) ↔ UpToStop env journal.before.state r.disk.state := by
  have hrec : recover env r =
      (rolledBack journal r).publish { journal with phase } .cancelled := by
    rw [recover, hj]
    rcases hphase with rfl | rfl
    · exact settle_early hv (Or.inl rfl) hm
    · exact settle_early hv (Or.inr rfl) hm
  rw [hrec]
  constructor
  · rintro ⟨phase', hj', ⟨rfl, -⟩ | ⟨-, -, -, hup⟩ | rfl⟩
    · simp [Router.publish] at hj'
    · exact hup
    · simp [Router.publish] at hj'
  · exact fun hup => ⟨.cancelled, rfl, Or.inr (Or.inl ⟨rfl, rfl, rfl, hup⟩)⟩

theorem upToStop_iff {image file : RawState} {s t : State}
    (hs : Model.validateState env image = .ok s) (ht : Model.validateState env file = .ok t) :
    UpToStop env image file ↔ withoutStop t = withoutStop s := by
  constructor
  · rintro ⟨s', t', hs', ht', h⟩
    rw [hs] at hs'
    rw [ht] at ht'
    cases hs'
    cases ht'
    exact h
  · exact fun h => ⟨s, t, hs, ht, h⟩

/-- A Stop behind an early crash copies another switch than the one the state has. -/
def Copies (env : Env) (uci : Uci) (journal : Journal) (router : Router) (count : ℕ)
    (calls : List (Rpc.Request × Outside)) : Prop :=
  count ≤ 4 ∧ calls ≠ [] ∧ ∃ live, Model.validateState env router.disk.state = .ok live ∧
    live.activeServerId ≠ none ∧
    uci.access (crash journal router count).config ≠ live.settings.standaloneAccess

theorem early_iff (hp : Prepared env uci router live after journal) (h1 : 1 ≤ count)
    (h4 : count ≤ 4) (hs : Stops calls)
    (hrun : Run (Call env uci intentDigest) (crash journal router count) calls r) :
    Consistent env journal (recover env r) ↔ ¬ Copies env uci journal router count calls := by
  obtain ⟨phase, hphase, hj, hdisk, hm⟩ := crash_early journal router hp.before_files h1 h4
  have hbefore : Model.validateState env journal.before.state = .ok live := by
    rw [hp.before_files]
    exact hp.live_valid
  have hcrash : Model.validateState env (crash journal router count).disk.state = .ok live := by
    rw [hdisk]
    exact hp.live_valid
  rcases stops_run hrun hs hcrash with ⟨rfl, hidle⟩ | ⟨hcalls, hactive, rfl⟩
  · rw [recover_early hcrash hphase hj hm, upToStop_iff hbefore hcrash]
    refine iff_of_true rfl ?_
    rintro ⟨-, hne, l, hl, hact, -⟩
    rw [hp.live_valid] at hl
    cases hl
    exact hidle.elim hne hact
  · have hok := stopped_ok (uci.access (crash journal router count).config)
      (Model.validateState_ok hp.live_valid)
    have hstate := Model.validateState_raw hok
    have hearly := recover_early (r := (crash journal router count).write
      (stopped (uci.access (crash journal router count).config) live).raw) hstate hphase hj hm
    refine hearly.trans ((upToStop_iff hbefore hstate).trans ?_)
    rw [withoutStop_stopped]
    constructor
    · rintro heq ⟨-, -, l, hl, -, hne⟩
      rw [hp.live_valid] at hl
      cases hl
      exact hne heq
    · intro hcopies
      by_contra hne
      exact hcopies ⟨h4, hcalls, live, hp.live_valid, hactive, hne⟩

theorem late_consistent (hp : Prepared env uci router live after journal) (h5 : 5 ≤ count)
    (h7 : count ≤ 7) (hs : Stops calls)
    (hrun : Run (Call env uci intentDigest) (crash journal router count) calls r) :
    Consistent env journal (recover env r) := by
  obtain ⟨hj, hstate, hc, hpol⟩ := crash_late journal router h5 h7
  have hafter : Model.validateState env journal.after.state = .ok after := by
    rw [hp.after_state]
    exact Model.validateState_raw hp.after_ok
  have hvalid : ∃ s, Model.validateState env (crash journal router count).disk.state = .ok s ∧
      s.Ok env ∧ (count = 7 → s = after) := by
    rw [hstate]
    split
    · exact ⟨live, hp.live_valid, Model.validateState_ok hp.live_valid, by omega⟩
    · exact ⟨after, hafter, hp.after_ok, fun _ => rfl⟩
  obtain ⟨s, hv, hok, h7s⟩ := hvalid
  have hr : ∃ t, Model.validateState env r.disk.state = .ok t ∧
      r.journal = (crash journal router count).journal ∧ r.config = journal.after.config ∧
      r.policy = journal.after.policy ∧
      (s.settings.standaloneAccess = uci.access journal.after.config →
        withoutStop t = withoutStop s) := by
    rcases stops_run hrun hs hv with ⟨rfl, -⟩ | ⟨-, -, rfl⟩
    · exact ⟨s, hv, rfl, hc, hpol, fun _ => rfl⟩
    · refine ⟨_, Model.validateState_raw (stopped_ok _ hok), rfl, hc, hpol, fun heq => ?_⟩
      rw [withoutStop_stopped, hc, heq]
  obtain ⟨t, ht, hrj, hrc, hrp, hws⟩ := hr
  rw [hj] at hrj
  by_cases h : count = 7
  · obtain rfl := h7s h
    simp only [h, if_true] at hrj
    have hrec : recover env r = r := by
      rw [recover, hrj]
      simp [Phase.terminal]
    rw [hrec]
    exact ⟨.committed, hrj, Or.inl ⟨rfl, hrc, hrp, s, t, hafter, ht, hws hp.after_access⟩⟩
  · simp only [h, if_false] at hrj
    have hrec : recover env r = settle env { journal with phase := .stateCommitting } r := by
      rw [recover, hrj]
      simp [Phase.terminal]
    rw [hrec]
    exact settle_consistent hp ht hrc hrp

/-! A restore that turns the standalone switch off under an active server. -/

/-- An environment in which every configuration parses. -/
def serverEnv : Env := { Rpc.plainEnv with parseBody := fun _ => .ok ⟨[], []⟩ }

def savedServer : Server where
  id := .value "server-000000000001".toList
  name := .value "home".toList
  endpoint := .value "example".toList
  config := .value "config".toList

def activeState : State :=
  { Model.defaults with
    revision := 1
    activeServerId := some "server-000000000001".toList
    servers := [savedServer] }

/-- A configuration that holds the standalone switch and nothing else. -/
def switchUci : Uci where
  panel := fun config => if config = ['0'] then { standalone := .value ['0'] } else {}
  stage := fun _ panel =>
    if panel = { standalone := .value ['0'] } then some ['0'] else if panel = {} then
      some ['1'] else none
  panel_stage := by
    intro config panel config' h
    split at h
    · cases h
      simp_all
    · split at h
      · cases h
        simp_all
      · cases h

def switchOff : Checked where
  createdAtUnixMs := 0
  state := setAccess Model.defaults false
  panel := { standalone := .value ['0'] }
  enabled := false

def switchRouter : Router := ⟨{ state := activeState.raw }, ['1'], none, none⟩

def switchAfter : State := { switchOff.state with revision := 2 }

def switchJournal : Journal where
  id := "restore".toList
  phase := .prepared
  before := switchRouter.files
  after := ⟨switchAfter.raw, ['0'], some ⟨.value 1, .value 1, .value false, .missing⟩⟩
  beforeRevision := 1
  afterRevision := 2
  beforeWithoutStop := withoutStop activeState
  afterWithoutStop := withoutStop switchAfter

def anyJson : Json := ⟨fun _ => true, fun _ => true⟩

theorem switch_prepared : prepareJob serverEnv anyJson switchUci ⟨true, true, true⟩
    switchOff.document (.value 1) "restore".toList switchRouter = .ok switchJournal := by
  decide

/-- What Stop reads while the configuration has the switch at `access`. -/
def switchOutside (access : Bool) :
    Outside := { Rpc.plainOutside '1' Rpc.isHex_one with standalone := access }

def noDigest : Mobile.Intent → Text := fun _ => []

/-- Stop behind a crash that left the journal in an early phase. -/
theorem switch_stop (count : ℕ) (access : Bool) (hc : count ≤ 4) (h1 : 1 ≤ count)
    (ha : switchUci.access (crash switchJournal switchRouter count).config = access) :
    Run (Call serverEnv switchUci noDigest) (crash switchJournal switchRouter count)
      [(.stopServer (.value 1), switchOutside access)]
      ((crash switchJournal switchRouter count).write (stopped access activeState).raw) := by
  obtain ⟨phase, hphase, hj, hdisk, -⟩ := crash_early switchJournal switchRouter rfl h1 hc
  refine .single (.call rfl ha.symm (fun current _ => ?_) ?_)
  · simp only [revocationRevisionAllowed, Backup.expected, hj]
    rcases hphase with rfl | rfl <;> simp [switchOutside, Rpc.plainOutside]
  · rw [hdisk]
    cases access <;> decide

/-- A restore is atomic over a crash and a recovery: the journal ends with all files from after, or
all from before, up to Stop, or asks for help. The one exception is a Stop behind an early crash
that copies a standalone switch the state did not have. -/
theorem restore_atomic
    (hprep : prepareJob env js uci setting document expected id router = .ok journal)
    (h1 : 1 ≤ count) (h7 : count ≤ 7) (hs : Stops calls)
    (hrun : Run (Call env uci intentDigest) (crash journal router count) calls r) :
    Consistent env journal (recover env r) ↔ ¬ Copies env uci journal router count calls := by
  obtain ⟨live, after, hp⟩ := prepareJob_ok hprep
  by_cases h4 : count ≤ 4
  · exact early_iff hp h1 h4 hs hrun
  · exact iff_of_true (late_consistent hp (by omega) h7 hs hrun) fun hc => h4 hc.1

/-- A Stop right behind the published journal. -/
theorem restore_atomic_prepared :
    Consistent serverEnv switchJournal (recover serverEnv
      ((crash switchJournal switchRouter 1).write (stopped true activeState).raw)) ↔
    ¬ Copies serverEnv switchUci switchJournal switchRouter 1
      [(.stopServer (.value 1), switchOutside true)] :=
  restore_atomic switch_prepared (by decide) (by decide) (by simp [Stops])
    (switch_stop 1 true (by decide) (by decide) rfl)

/-- The crash comes right behind the new configuration: Stop copies its switch into the state, and
recovery brings back only the configuration. -/
theorem restore_not_atomic : ¬ ∀ (env : Env) (js : Json) (uci : Uci)
    (intentDigest : Mobile.Intent → Text) (setting : Setting) (document : Document)
    (expected : Field ℤ) (id : Text) (router r : Router) (journal : Journal) (count : ℕ)
    (calls : List (Rpc.Request × Outside)),
    prepareJob env js uci setting document expected id router = .ok journal → 1 ≤ count →
    count ≤ 7 → Stops calls →
    Run (Call env uci intentDigest) (crash journal router count) calls r →
    Consistent env journal (recover env r) := by
  intro h
  have hrun := switch_stop 3 false (by decide) (by decide) rfl
  obtain ⟨live, after, hp⟩ := prepareJob_ok switch_prepared
  have hconsistent := h serverEnv anyJson switchUci noDigest _ _ _ _ _ _ _ 3 _ switch_prepared
    (by decide) (by decide) (by simp [Stops]) hrun
  refine (early_iff hp (by decide) (by decide) (by simp [Stops]) hrun).1 hconsistent ?_
  refine ⟨by decide, by simp, activeState, by decide, by decide, by decide⟩

end Foxhole.Backup
