import Foxhole.RestoreAtomic

/-! Recovery behind a crash, when revocations and Stop have gone in between. -/
namespace Foxhole.Backup
open Check Text Trace

variable {env : Env} {js : Json} {uci : Uci} {intentDigest : Mobile.Intent → Text}
  {setting : Setting} {document : Document} {expected : Field ℤ} {id : Text}
  {router router' origin r : Router} {journal : Journal} {state live after : State} {phase : Phase}
  {calls : List (Rpc.Request × Outside)} {call : Rpc.Request × Outside} {count : ℕ}

/-- The standalone switch of the configuration is the one the stored state has. -/
def SameSwitch (env : Env) (uci : Uci) (router : Router) : Prop :=
  ∀ live, Model.validateState env router.disk.state = .ok live →
    uci.access router.config = live.settings.standaloneAccess

/-- What an admitted call must not do: lose the server reference of another client while recovery
only needs a state it can read, or change more than a Stop does once the state may be committed. -/
def Quiet (env : Env) (uci : Uci) (router : Router) : Rpc.Request × Outside → Prop
  | (.deleteClient args, out) =>
    router.journal.map Journal.phase ≠ some .stateCommitting ∧
      (pending router = true → Rpc.Sound env ⟨router.disk, []⟩ (.deleteClient args, out))
  | (.clientAccess args _, _) =>
    router.journal.map Journal.phase = some .stateCommitting → SameSwitch env uci router ∧
      ∀ client ∈ router.disk.clients, client.key = args.id → client.inbound = true →
        client.allowLan = .value false
  | (.stopServer _, _) =>
    router.journal.map Journal.phase = some .stateCommitting → SameSwitch env uci router ∨
      ∀ live, Model.validateState env router.disk.state = .ok live → live.activeServerId = none
  | _ => True

/-- In STATE_COMMITTING a state that was written since has no active server. -/
def Idle (env : Env) (journal : Journal) (router : Router) : Prop :=
  router.journal.map Journal.phase = some .stateCommitting →
    router.disk.state = journal.before.state ∨ router.disk.state = journal.after.state ∨
    ∀ live, Model.validateState env router.disk.state = .ok live → live.activeServerId = none

/-- The live state is an image, or was written from one and differs only as after a Stop. -/
def Near (journal : Journal) (file : RawState) (live : State) : Prop :=
  file = journal.before.state ∨ file = journal.after.state ∨
  (withoutStop live = journal.beforeWithoutStop ∧ journal.beforeRevision < live.revision) ∨
  (withoutStop live = journal.afterWithoutStop ∧ journal.afterRevision < live.revision)

/-- Where the router may be between the crash and the recovery. -/
inductive Track (env : Env) (journal : Journal) (router : Router) : Prop
  | early (phase : Phase) : phase = .prepared ∨ phase = .applying →
      router.journal = some { journal with phase } → Mixed journal router →
      Rpc.Accepted env router.disk.state → Track env journal router
  | committing (live : State) : router.journal = some { journal with phase := .stateCommitting } →
      router.config = journal.after.config → router.policy = journal.after.policy →
      Model.validateState env router.disk.state = .ok live → Near journal router.disk.state live →
      Track env journal router
  | done : router.journal = some { journal with phase := .committed } → Track env journal router

theorem mapFirst_eq_self {p : Client → Bool} {f : Client → Client} {clients : List Client}
    (h : ∀ c ∈ clients, p c = true → f c = c) : Rpc.mapFirst p f clients = clients := by
  induction clients with
  | nil => rfl
  | cons c clients ih =>
    unfold Rpc.mapFirst
    split
    · rename_i hp
      rw [h c List.mem_cons_self hp]
    · rw [ih fun d hd => h d (List.mem_cons_of_mem _ hd)]

/-- The state a call writes that only moves the revision under the switch of the configuration. -/
def touched (access : Bool) (state : State) : State :=
  { setAccess state access with revision := state.revision + 1 }

theorem touched_ok (access : Bool) (h : state.Ok env) : (touched access state).Ok env :=
  ⟨Rpc.policy_ok_settings h.policy _, h.servers, h.active, h.clients⟩

/-- Closing a LAN access that is closed already. -/
theorem access_call {args : Rpc.IdArgs} {allowLan : Bool} {out : Outside}
    (h : Call env uci intentDigest router (.clientAccess args allowLan, out) router')
    (hv : Model.validateState env router.disk.state = .ok state)
    (hclosed : ∀ client ∈ router.disk.clients, client.key = args.id → client.inbound = true →
      client.allowLan = .value false) :
    router' = router.write (touched (uci.access router.config) state).raw := by
  have hclients : router.disk.clients = state.clients := by
    simp [Disk.clients, (Rpc.validateState_lists hv).2]
  cases h with
  | call hadmitted hout _ hp =>
    obtain rfl : allowLan = false := by
      cases allowLan
      · rfl
      · simp [admitted] at hadmitted
    simp only [Rpc.perform, Rpc.clientAccess, Rpc.stateForRevocation, Rpc.stateRecord,
      hv, bind_eq_ok,
      pure_eq_ok] at hp
    obtain ⟨-, -, s, ⟨_, -, _, ⟨_, ⟨⟩, rfl⟩, -, -, rfl⟩, -, -, rfl⟩ := hp
    have hsame : Rpc.mapFirst (fun client => client.key = args.id && client.inbound)
        (fun client => { client with allowLan := .value false }) state.clients = state.clients := by
      refine mapFirst_eq_self fun c hc hq => ?_
      simp only [Bool.and_eq_true, decide_eq_true_eq] at hq
      rw [← hclosed c (hclients ▸ hc) hq.1 hq.2]
    rw [← hout]
    show Router.mk _ _ _ _ = _
    simp only [hsame]
    rfl

/-- A call of another kind leaves all files but the RPC layer's alone. -/
theorem call_frame (h : Call env uci intentDigest router call router') :
    router'.config = router.config ∧ router'.policy = router.policy ∧
      router'.journal = router.journal := by
  cases h
  exact ⟨rfl, rfl, rfl⟩

/-- Admitted calls keep state.json acceptable, as long as no server reference is lost. -/
theorem call_accepted (h : Call env uci intentDigest router call router')
    (hsound : Rpc.Sound env ⟨router.disk, []⟩ call) (ha : Rpc.Accepted env router.disk.state) :
    Rpc.Accepted env router'.disk.state := by
  cases h with
  | @call request out disk hadmitted _ _ hp =>
    cases request with
    | stopServer revision => exact Rpc.stopServer_accepted ha hp
    | clientAccess args allowLan => exact Rpc.clientAccess_accepted hp
    | deleteClient args =>
      simp only [Rpc.perform, map_eq_ok] at hp
      obtain ⟨⟨d, revoked⟩, hd, rfl⟩ := hp
      exact Rpc.deleteClient_accepted hsound hd
    | pairRevoke id =>
      simp only [Rpc.perform, bind_eq_ok, pure_eq_ok] at hp
      obtain ⟨_, -, rfl⟩ := hp
      exact ha
    | setPin =>
      cases hp
      exact ha
    | _ => cases hadmitted

/-- Writing a state that differs from the live one as after a Stop. -/
theorem near_write (hp : Prepared env uci router live after journal)
    (hv : Model.validateState env r.disk.state = .ok state) (hn : Near journal r.disk.state state)
    {next : State} (hws : withoutStop next = withoutStop state)
    (hrev : next.revision = state.revision + 1) : Near journal next.raw next := by
  have hbefore : r.disk.state = journal.before.state → state = live := by
    intro heq
    rw [heq, hp.before_files] at hv
    exact Except.ok.inj (hv.symm.trans hp.live_valid)
  have hafter : r.disk.state = journal.after.state → state = after := by
    intro heq
    rw [heq, hp.after_state, Model.validateState_raw hp.after_ok] at hv
    exact (Except.ok.inj hv).symm
  rcases hn with heq | heq | ⟨hw, hr⟩ | ⟨hw, hr⟩
  · obtain rfl := hbefore heq
    refine Or.inr (Or.inr (Or.inl ⟨hws.trans hp.beforeWithoutStop.symm, ?_⟩))
    rw [hp.beforeRevision, hrev]
    omega
  · obtain rfl := hafter heq
    refine Or.inr (Or.inr (Or.inr ⟨hws.trans hp.afterWithoutStop.symm, ?_⟩))
    rw [hp.afterRevision, hrev]
    omega
  · exact Or.inr (Or.inr (Or.inl ⟨hws.trans hw, by omega⟩))
  · exact Or.inr (Or.inr (Or.inr ⟨hws.trans hw, by omega⟩))

theorem quiet_sound (h : Call env uci intentDigest router call router')
    (hq : Quiet env uci router call) (hpending : pending router = true) :
    Rpc.Sound env ⟨router.disk, []⟩ call := by
  cases h with
  | @call request out disk hadmitted _ _ _ =>
    cases request with
    | deleteClient args => exact hq.2 hpending
    | saveServer | saveClient => cases hadmitted
    | _ => trivial

/-- In STATE_COMMITTING a quiet call stays near the images. -/
theorem near_step (hp : Prepared env uci origin live after journal)
    (h : Call env uci intentDigest router call router') (hq : Quiet env uci router call)
    (hj : router.journal = some { journal with phase := .stateCommitting })
    (hv : Model.validateState env router.disk.state = .ok state)
    (hn : Near journal router.disk.state state) :
    ∃ next, Model.validateState env router'.disk.state = .ok next ∧
      Near journal router'.disk.state next := by
  have hphase : router.journal.map Journal.phase = some .stateCommitting := by rw [hj]; rfl
  have hok := Model.validateState_ok hv
  obtain ⟨request, out⟩ := call
  cases request with
  | stopServer revision =>
    rcases stop_call h hv with ⟨-, rfl⟩ | ⟨hactive, rfl⟩
    · exact ⟨state, hv, hn⟩
    · have hswitch : uci.access router.config = state.settings.standaloneAccess := by
        rcases hq hphase with hsame | hidle
        · exact hsame state hv
        · exact absurd (hidle state hv) hactive
      exact ⟨_, Model.validateState_raw (stopped_ok _ hok),
        near_write hp hv hn (withoutStop_stopped.2 hswitch) rfl⟩
  | clientAccess args allowLan =>
    obtain ⟨hsame, hclosed⟩ := hq hphase
    obtain rfl := access_call h hv hclosed
    refine ⟨_, Model.validateState_raw (touched_ok _ hok), near_write hp hv hn ?_ rfl⟩
    rw [hsame state hv]
    rfl
  | deleteClient args => exact absurd hphase hq.1
  | pairRevoke id =>
    cases h with
    | call _ _ _ hperform =>
      simp only [Rpc.perform, bind_eq_ok, pure_eq_ok] at hperform
      obtain ⟨_, -, rfl⟩ := hperform
      exact ⟨state, hv, hn⟩
  | setPin =>
    cases h with
    | call _ _ _ hperform =>
      cases hperform
      exact ⟨state, hv, hn⟩
  | _ =>
    cases h with
    | call hadmitted => cases hadmitted

theorem track_step (hp : Prepared env uci origin live after journal)
    (h : Call env uci intentDigest router call router') (hq : Quiet env uci router call)
    (ht : Track env journal router) : Track env journal router' := by
  obtain ⟨hconfig, hpolicy, hjournal⟩ := call_frame h
  cases ht with
  | early phase hphase hj hm ha =>
    have hpending : pending router = true := by
      rw [pending, hj]
      rcases hphase with rfl | rfl <;> rfl
    refine .early phase hphase (hjournal.trans hj) ?_
      (call_accepted h (quiet_sound h hq hpending) ha)
    unfold Mixed
    rw [hconfig, hpolicy]
    exact hm
  | committing state hj hc hpol hv hn =>
    obtain ⟨next, hnext, hnear⟩ := near_step hp h hq hj hv hn
    exact .committing next (hjournal.trans hj) (hconfig.trans hc) (hpolicy.trans hpol) hnext hnear
  | done hj => exact .done (hjournal.trans hj)

theorem track_crash (hp : Prepared env uci router live after journal) (h1 : 1 ≤ count)
    (h7 : count ≤ 7) : Track env journal (crash journal router count) := by
  by_cases h4 : count ≤ 4
  · obtain ⟨phase, hphase, hj, hdisk, hm⟩ := crash_early journal router hp.before_files h1 h4
    refine .early phase hphase hj hm ?_
    rw [hdisk]
    exact ⟨live, hp.live_valid⟩
  · obtain ⟨hj, hstate, hc, hpol⟩ := crash_late journal router (by omega : 5 ≤ count) h7
    by_cases h : count = 7
    · exact .done (by rw [hj, if_pos h])
    · rw [if_neg h] at hj
      by_cases h5 : count = 5
      · rw [if_pos h5] at hstate
        refine .committing live hj hc hpol (by rw [hstate]; exact hp.live_valid) (Or.inl ?_)
        rw [hstate, hp.before_files]
        rfl
      · rw [if_neg h5] at hstate
        refine .committing after hj hc hpol ?_ (Or.inr (Or.inl hstate))
        rw [hstate, hp.after_state]
        exact Model.validateState_raw hp.after_ok

/-- A state near the images, without an active server unless it is one, is recognised. -/
theorem recognised (hn : Near journal r.disk.state state)
    (hidle : r.disk.state = journal.before.state ∨ r.disk.state = journal.after.state ∨
      state.activeServerId = none)
    (hc : r.config = journal.after.config) (hpol : r.policy = journal.after.policy) :
    afterImage journal r state = true ∨ beforeImage journal r state = true := by
  have hprod : productsAfter journal r = true := by simp [productsAfter, hc, hpol]
  simp only [afterImage, beforeImage, Bool.or_eq_true, Bool.and_eq_true, decide_eq_true_eq]
  rcases hidle with heq | heq | hnone
  · exact Or.inr (Or.inl heq)
  · exact Or.inl (Or.inl heq)
  · rcases hn with heq | heq | ⟨hw, hr⟩ | ⟨hw, hr⟩
    · exact Or.inr (Or.inl heq)
    · exact Or.inl (Or.inl heq)
    · exact Or.inr (Or.inr ⟨⟨hr, hnone⟩, hw⟩)
    · exact Or.inl (Or.inr ⟨⟨⟨hnone, hr⟩, hw⟩, hprod⟩)

/-- Recovery has committed or cancelled. -/
def Recovered (router : Router) : Prop :=
  ∃ journal, router.journal = some journal ∧ journal.phase.terminal = true

theorem recovered_of_track (ht : Track env journal r) (hidle : Idle env journal r) :
    Recovered (recover env r) := by
  cases ht with
  | early phase hphase hj hm ha =>
    obtain ⟨state, hv⟩ := ha
    have hrec : recover env r = (rolledBack journal r).publish { journal with phase }
        .cancelled := by
      rw [recover, hj]
      rcases hphase with rfl | rfl
      · exact settle_early hv (Or.inl rfl) hm
      · exact settle_early hv (Or.inr rfl) hm
    rw [hrec]
    exact ⟨_, rfl, rfl⟩
  | committing live hj hc hpol hv hn =>
    have hprod : productsAfter { journal with phase := .stateCommitting } r = true := by
      simp [productsAfter, hc, hpol]
    have hmixed : Mixed { journal with phase := .stateCommitting } r := ⟨Or.inr hc, Or.inr hpol⟩
    have hrec : recover env r = settle env { journal with phase := .stateCommitting } r := by
      rw [recover, hj]
      simp [Phase.terminal]
    have himage : r.disk.state = journal.before.state ∨ r.disk.state = journal.after.state ∨
        live.activeServerId = none := by
      rcases hidle (by rw [hj]; rfl) with heq | heq | hnone
      · exact Or.inl heq
      · exact Or.inr (Or.inl heq)
      · exact Or.inr (Or.inr (hnone live hv))
    rw [hrec]
    cases ha : afterImage { journal with phase := .stateCommitting } r live with
    | true =>
      rw [settle_after hv rfl hprod ha]
      exact ⟨_, rfl, rfl⟩
    | false =>
      have hb : beforeImage { journal with phase := .stateCommitting } r live = true := by
        have hnot : afterImage journal r live = false := ha
        rcases recognised hn himage hc hpol with h | h
        · rw [hnot] at h
          cases h
        · exact h
      rw [settle_before hv rfl hmixed ha hb]
      exact ⟨_, rfl, rfl⟩
  | done hj =>
    have hrec : recover env r = r := by
      rw [recover, hj]
      simp [Phase.terminal]
    rw [hrec]
    exact ⟨_, hj, rfl⟩

/-! A client that is saved on both sides of a restore. -/

def keptClient : Client := Rpc.lastPortClient '1' 14443

def keptState (revision : ℕ) : State := Rpc.lastPortState revision [keptClient]

def keptDisk (state : State) : Disk :=
  ⟨state.raw, [], Pairing.defaults, some Rpc.lastPortBase⟩

def keptRouter : Router := ⟨keptDisk (keptState 1), ['1'], none, none⟩

def keptBackup : Checked := ⟨0, keptState 1, {}, false⟩

def keptJournal : Journal where
  id := "restore".toList
  phase := .prepared
  before := keptRouter.files
  after := ⟨(keptState 2).raw, ['1'], some ⟨.value 1, .value 1, .value false, .missing⟩⟩
  beforeRevision := 1
  afterRevision := 2
  beforeWithoutStop := keptState 0
  afterWithoutStop := keptState 0

theorem kept_prepared : prepareJob Rpc.plainEnv anyJson switchUci ⟨true, true, true⟩
    keptBackup.document (.value 1) "restore".toList keptRouter = .ok keptJournal := by
  decide

/-- A call right behind the commit marker. -/
theorem kept_call (request : Rpc.Request) (disk : Disk) (ha : admitted request = true)
    (hp : Rpc.perform Rpc.plainEnv noDigest (switchOutside true) keptRouter.disk
      request = .ok disk) :
    Call Rpc.plainEnv switchUci noDigest (crash keptJournal keptRouter 5)
      (request, switchOutside true) { crash keptJournal keptRouter 5 with disk := disk } := by
  refine .call ha rfl (fun current hcurrent => ?_) hp
  have hrev : current.revision = 1 := by
    have hdisk : Rpc.stateRecord Rpc.plainEnv (switchOutside true) keptRouter.disk =
        .ok (keptState 1) := by decide
    rw [show (crash keptJournal keptRouter 5).disk = keptRouter.disk from rfl, hdisk] at hcurrent
    cases hcurrent
    rfl
  unfold revocationRevisionAllowed
  split
  · rename_i journal n hj _
    cases hj
    simp [hrev, switchOutside, Rpc.plainOutside, keptJournal]
  · rfl

/-- Recovery ends in COMMITTED or CANCELLED behind every crash and every run of admitted calls that
neither lose a server reference nor, once the commit marker is out, do more than a Stop. -/
theorem recover_progresses
    (hprep : prepareJob env js uci setting document expected id router = .ok journal)
    (h1 : 1 ≤ count) (h7 : count ≤ 7)
    (hrun : Run (Guarded (Quiet env uci) (Call env uci intentDigest)) (crash journal router count)
      calls r)
    (hidle : Idle env journal r) : Recovered (recover env r) := by
  obtain ⟨live, after, hp⟩ := prepareJob_ok hprep
  have htrack := hrun.invariant (I := Track env journal)
    (fun _ _ _ ht h => track_step hp h.2 h.1 ht) (track_crash hp h1 h7)
  exact recovered_of_track htrack hidle

/-- Behind the commit marker the LAN access of the client is closed once more. -/
theorem recover_progresses_access : Recovered (recover Rpc.plainEnv
    ((crash keptJournal keptRouter 5).write (keptState 2).raw)) := by
  have hcall := kept_call (.clientAccess ⟨.value 1, keptClient.key⟩ false)
    (keptDisk (keptState 2)) rfl (by decide)
  have hquiet : Quiet Rpc.plainEnv switchUci (crash keptJournal keptRouter 5)
      (.clientAccess ⟨.value 1, keptClient.key⟩ false, switchOutside true) := by
    intro _
    refine ⟨fun live hlive => ?_, by decide⟩
    have hv : Model.validateState Rpc.plainEnv (keptState 1).raw = .ok (keptState 1) := by
      decide
    rw [show (crash keptJournal keptRouter 5).disk.state = (keptState 1).raw from rfl, hv] at hlive
    cases hlive
    decide
  exact recover_progresses kept_prepared (by decide) (by decide) (.single ⟨hquiet, hcall⟩)
    fun _ => Or.inr (Or.inl rfl)

/-- Behind the commit marker a client is deleted: the state is neither image, and recovery asks for
help. -/
theorem recover_stuck : ¬ ∀ (env : Env) (js : Json) (uci : Uci)
    (intentDigest : Mobile.Intent → Text) (setting : Setting) (document : Document)
    (expected : Field ℤ) (id : Text) (router r : Router) (journal : Journal) (count : ℕ)
    (calls : List (Rpc.Request × Outside)),
    prepareJob env js uci setting document expected id router = .ok journal → 1 ≤ count →
    count ≤ 7 → Run (Call env uci intentDigest) (crash journal router count) calls r →
    Recovered (recover env r) := by
  intro h
  have hcall := kept_call (.deleteClient ⟨.value 1, keptClient.key⟩)
    (keptDisk (Rpc.lastPortState 2 [])) rfl (by decide)
  obtain ⟨journal, hj, hterminal⟩ := h Rpc.plainEnv anyJson switchUci noDigest _ _ _ _ _ _ _ 5 _
    kept_prepared (by decide) (by decide) (.single hcall)
  have hrec : (recover Rpc.plainEnv ((crash keptJournal keptRouter 5).write
      (Rpc.lastPortState 2 []).raw)).journal.map (fun j => j.phase.terminal) = some false := by
    decide
  have hsome := congrArg (Option.map fun j : Journal => j.phase.terminal) hj
  rw [Option.map_some, hterminal] at hsome
  cases hsome.symm.trans hrec

end Foxhole.Backup
