import Foxhole.StopSticks

/-! The revision of state.json: one content for each, and no call overwrites one it did not
expect. -/
namespace Foxhole
open Check Text

namespace Rpc

/-- The revision a call expects. -/
def Request.expected : Request → Option (Field ℤ)
  | .settings args => some args.revision
  | .saveServer args => some args.revision
  | .deleteServer args | .startServer args => some args.revision
  | .stopServer revision => some revision
  | .saveClient args => some args.revision
  | .updateClient args _ | .clientAccess args _ | .deleteClient args => some args.revision
  | .setupReset revision => some revision
  | _ => none

/-- Start and Stop write only what changes. -/
def Request.mayKeep : Request → Prop
  | .startServer _ | .stopServer _ => True
  | _ => False

/-- The calls that ask `revocation_revision_allowed`. -/
def Request.revokes : Request → Prop
  | .stopServer _ | .deleteClient _ | .clientAccess _ false => True
  | _ => False

/-- An accepted call found the revision it expects, or was let through, and left it or the next. -/
structure Expected (request : Request) (revision : Field ℤ) (allowed : Bool) (found left : ℕ) :
    Prop where
  left : left = found + 1 ∨ request.mayKeep ∧ left = found
  found : revision = .value (found : ℤ) ∨ request.revokes ∧ allowed = true

variable {env : Env} {intentDigest : Mobile.Intent → Text} {out : Outside} {disk disk' : Disk}
  {state state' : State} {request : Request} {revision : Field ℤ}

theorem validRevision_ok {n : ℕ} (h : validRevision revision = .ok n) :
    revision = .value (n : ℤ) := by
  unfold validRevision at h
  split at h
  · split at h
    · cases h
      congr 1
      omega
    · cases h
  · cases h

theorem stateAt_revision (h : stateAt env out disk revision = .ok state) :
    revision = .value (state.revision : ℤ) := by
  simp only [stateAt, bind_eq_ok, require_eq_ok, pure_eq_ok] at h
  obtain ⟨expected, he, s, -, -, hr, rfl⟩ := h
  rw [validRevision_ok he, hr]

theorem stateForRevocation_revision {allowed : Bool}
    (h : stateForRevocation env out disk revision allowed = .ok state) :
    revision = .value (state.revision : ℤ) ∨ allowed = true := by
  simp only [stateForRevocation, bind_eq_ok, require_eq_ok, pure_eq_ok] at h
  obtain ⟨expected, he, s, -, -, hr | ha, rfl⟩ := h
  · left
    rw [validRevision_ok he, hr]
  · exact Or.inr ha

/-- What a call found in the file and what it left there. -/
structure Leaves (env : Env) (out : Outside) (disk disk' : Disk) (found left : ℕ) : Prop where
  read : ∃ current, stateRecord env out disk = .ok current
  found : disk.state.revision = .value (found : ℤ)
  left : disk'.state.revision = .value (left : ℤ)

theorem leaves_bump (h : stateRecord env out disk = .ok state)
    (hr : state'.revision = state.revision) :
    Leaves env out disk (disk.write (bump state')) state.revision (state.revision + 1) := by
  obtain ⟨before, hb, hrev, -⟩ := stateRecord_marks h
  refine ⟨⟨state, h⟩, ?_, ?_⟩
  · rw [(validateState_marks hb).1, hrev]
  · simp [Disk.write, State.raw, bump, hr]

theorem leaves_same (h : stateRecord env out disk = .ok state) :
    Leaves env out disk disk state.revision state.revision := by
  obtain ⟨before, hb, hrev, -⟩ := stateRecord_marks h
  have hraw := (validateState_marks hb).1
  rw [← hrev] at hraw
  exact ⟨⟨state, h⟩, hraw, hraw⟩

/-- A call that reads at its expected revision and writes the next one. -/
theorem expected_bump (h : stateAt env out disk revision = .ok state)
    (hr : state'.revision = state.revision) :
    ∃ found left, Leaves env out disk (disk.write (bump state')) found left ∧
      Expected request revision out.revisionAllowed found left :=
  ⟨_, _, leaves_bump (stateAt_record h) hr, Or.inl rfl, Or.inl (stateAt_revision h)⟩

/-- A revoking call, which a restore may let through. -/
theorem expected_revocation {allowed : Bool}
    (h : stateForRevocation env out disk revision allowed = .ok state)
    (hr : state'.revision = state.revision)
    (ha : allowed = true → request.revokes ∧ out.revisionAllowed = true) :
    ∃ found left, Leaves env out disk (disk.write (bump state')) found left ∧
      Expected request revision out.revisionAllowed found left := by
  refine ⟨_, _, leaves_bump (stateForRevocation_record h) hr, Or.inl rfl, ?_⟩
  rcases stateForRevocation_revision h with hf | hf
  · exact Or.inl hf
  · exact Or.inr (ha hf)

theorem saveServer_expected {args : ServerArgs} (h : saveServer env out disk args = .ok disk') :
    ∃ found left, Leaves env out disk disk' found left ∧
      Expected (.saveServer args) args.revision out.revisionAllowed found left := by
  simp only [saveServer, bind_eq_ok] at h
  obtain ⟨parsed, -, subscription, -, -, -, ⟨id, given⟩, -, name, -, state, hst, h⟩ := h
  split at h
  · cases h
    exact expected_bump hst rfl
  · simp only [bind_eq_ok, pure_eq_ok] at h
    obtain ⟨-, -, rfl⟩ := h
    exact expected_bump hst rfl

theorem startServer_expected {args : IdArgs} (h : startServer env out disk args = .ok disk') :
    ∃ found left, Leaves env out disk disk' found left ∧
      Expected (.startServer args) args.revision out.revisionAllowed found left := by
  simp only [startServer, bind_eq_ok] at h
  obtain ⟨state, hst, h⟩ := h
  split at h
  · simp at h
  · simp only [bind_eq_ok] at h
    obtain ⟨-, -, h⟩ := h
    split at h <;> cases h
    · exact ⟨_, _, leaves_same (stateAt_record hst), Or.inr ⟨trivial, rfl⟩,
        Or.inl (stateAt_revision hst)⟩
    · exact expected_bump hst rfl

theorem stopServer_expected (h : stopServer env out disk revision = .ok disk') :
    ∃ found left, Leaves env out disk disk' found left ∧
      Expected (.stopServer revision) revision out.revisionAllowed found left := by
  simp only [stopServer, bind_eq_ok] at h
  obtain ⟨state, hst, h⟩ := h
  split at h <;> cases h
  · refine ⟨_, _, leaves_same (stateForRevocation_record hst), Or.inr ⟨trivial, rfl⟩, ?_⟩
    rcases stateForRevocation_revision hst with hf | hf
    · exact Or.inl hf
    · exact Or.inr ⟨trivial, hf⟩
  · exact expected_revocation hst rfl fun ha => ⟨trivial, ha⟩

theorem deleteClient_expected {args : IdArgs} {revoked : Bool}
    (h : deleteClient env out disk args = .ok (disk', revoked)) :
    ∃ found left, Leaves env out disk disk' found left ∧
      Expected (.deleteClient args) args.revision out.revisionAllowed found left := by
  simp only [deleteClient, bind_eq_ok] at h
  obtain ⟨state, hst, h⟩ := h
  split at h
  · simp at h
  · split at h
    · simp only [bind_eq_ok, pure_eq_ok] at h
      obtain ⟨phones, -, he⟩ := h
      cases he
      have hwritten : ∃ found left, Leaves env out disk (disk.write (bump { state with
          clients := state.clients.eraseP (·.key = args.id) })) found left ∧
          Expected (.deleteClient args) args.revision out.revisionAllowed found left :=
        expected_revocation hst rfl fun ha => ⟨trivial, ha⟩
      obtain ⟨found, left, hl, hx⟩ := hwritten
      exact ⟨found, left, ⟨hl.read, hl.found, hl.left⟩, hx⟩
    · cases h
      exact expected_revocation hst rfl fun ha => ⟨trivial, ha⟩

/-- Every accepted call that expects a revision found it and left it or the next. -/
theorem perform_expected (h : perform env intentDigest out disk request = .ok disk')
    (he : request.expected = some revision) :
    ∃ found left, Leaves env out disk disk' found left ∧
      Expected request revision out.revisionAllowed found left := by
  cases request with
  | settings args =>
    simp only [perform, settingsCall, bind_eq_ok, pure_eq_ok] at h
    obtain ⟨state, hst, _, -, rfl⟩ := h
    cases he
    exact expected_bump hst rfl
  | saveServer args =>
    cases he
    exact saveServer_expected h
  | deleteServer args =>
    simp only [perform, deleteServer, bind_eq_ok, pure_eq_ok] at h
    obtain ⟨state, hst, -, -, rfl⟩ := h
    cases he
    exact expected_bump hst rfl
  | startServer args =>
    cases he
    exact startServer_expected h
  | stopServer revision =>
    cases he
    exact stopServer_expected h
  | saveClient args =>
    simp only [perform, saveClient, bind_eq_ok, pure_eq_ok] at h
    obtain ⟨name, -, -, -, state, hst, serverId, -, client, -, rfl⟩ := h
    cases he
    exact expected_bump hst rfl
  | updateClient args name =>
    simp only [perform, updateClient, bind_eq_ok, pure_eq_ok] at h
    obtain ⟨_, -, state, hst, -, -, rfl⟩ := h
    cases he
    exact expected_bump hst rfl
  | clientAccess args allowLan =>
    simp only [perform, clientAccess, bind_eq_ok, pure_eq_ok] at h
    obtain ⟨-, -, state, hst, -, -, rfl⟩ := h
    cases he
    refine expected_revocation hst rfl fun ha => ?_
    cases allowLan
    · exact ⟨trivial, by simpa using ha⟩
    · simp at ha
  | deleteClient args =>
    simp only [perform, map_eq_ok] at h
    obtain ⟨⟨d, revoked⟩, hd, rfl⟩ := h
    cases he
    exact deleteClient_expected hd
  | setupReset revision =>
    simp only [perform, setupReset, bind_eq_ok, pure_eq_ok] at h
    obtain ⟨state, hst, -, -, rfl⟩ := h
    cases he
    have hraw := (leaves_same (stateAt_record hst)).found
    exact ⟨_, _, ⟨⟨state, stateAt_record hst⟩, hraw, rfl⟩, Or.inl rfl,
      Or.inl (stateAt_revision hst)⟩
  | provision | provisionCut | provisionRefused | pairCreate | pairRevoke | setPin => cases he

end Rpc

namespace Maintenance
open Trace Backup

variable {env : Env} {js : Json} {uci : Uci} {intentDigest : Mobile.Intent → Text}
  {w t u v : World} {id : Text} {act : Act} {xs ys : List Act}

/-- The images of a restore are one revision apart. -/
def Dated (journal : Journal) : Prop :=
  ∃ revision : ℕ, journal.before.state.revision = .value (revision : ℤ) ∧
    journal.after.state.revision = .value ((revision + 1 : ℕ) : ℤ)

def AllDated (w : World) : Prop := ∀ journal, w.router.journal = some journal → Dated journal

theorem prepareJob_dated {setting : Setting} {document : Document} {expected : Field ℤ}
    {router : Router} {journal : Journal}
    (h : prepareJob env js uci setting document expected id router = .ok journal) :
    Dated journal := by
  obtain ⟨live, after, hp⟩ := prepareJob_ok h
  refine ⟨live.revision, ?_, ?_⟩
  · rw [hp.before_files]
    exact (Rpc.validateState_marks hp.live_valid).1
  · rw [hp.after_state, ← hp.after_revision]
    rfl

/-- What a step keeps of the images, it keeps of their dates. -/
theorem allDated_of_map (h : AllDated w)
    (hj : t.router.journal.map (fun journal => (journal.before, journal.after)) =
      w.router.journal.map fun journal => (journal.before, journal.after)) : AllDated t := by
  intro journal htj
  rw [htj] at hj
  obtain ⟨previous, hp, he⟩ := Option.map_eq_some_iff.1 hj.symm
  have hbefore : previous.before = journal.before := congrArg Prod.fst he
  have hafter : previous.after = journal.after := congrArg Prod.snd he
  have hd := h previous hp
  unfold Dated at hd ⊢
  rwa [hbefore, hafter] at hd

/-- state.json is as it was, or carries the next revision. -/
def Advances (w t : World) : Prop :=
  t.router.disk.state = w.router.disk.state ∨
    ∃ revision : ℕ, w.router.disk.state.revision = .value (revision : ℤ) ∧
      t.router.disk.state.revision = .value ((revision + 1 : ℕ) : ℤ)

theorem call_advances {request : Rpc.Request} {out : Outside} {disk : Disk}
    (h : Rpc.perform env intentDigest out w.router.disk request = .ok disk) :
    Advances w { w with router := { w.router with disk } } := by
  rcases Rpc.perform_written h with he | ⟨before, after, hw⟩
  · exact Or.inl he
  · refine Or.inr ⟨before.revision, (Rpc.validateState_marks hw.read).1, ?_⟩
    show disk.state.revision = _
    rw [hw.written, ← hw.revision]
    rfl

theorem restoreStep_dated {act : RestoreAct} (h : RestoreStep env js uci w act t)
    (hd : AllDated w) : AllDated t ∧ Advances w t := by
  cases h with
  | queue _ _ _ _ hp =>
    refine ⟨?_, Or.inl rfl⟩
    rintro journal ⟨⟩
    have hdate := prepareJob_dated hp
    exact hdate
  | beginRun | finish | die => exact ⟨hd, Or.inl rfl⟩
  | apply _ hj | config _ hj | policy _ hj =>
    exact ⟨allDated_of_map hd (by simp [World.hold, Router.publish, Write.perform, hj]), Or.inl rfl⟩
  | @commit journal count _ hj hm _ _ =>
    obtain ⟨himages, hdisk⟩ := @commit_frame _ (fun journal => (journal.before, journal.after))
      (fun _ _ => rfl) _ _ hj count
    refine ⟨allDated_of_map hd himages, ?_⟩
    by_cases hc : count < 2
    · exact Or.inl (congrArg Disk.state (hdisk hc))
    · obtain ⟨revision, hbefore, hafter⟩ := hd journal hj
      refine Or.inr ⟨revision, ?_, ?_⟩
      · rw [hm.2]
        exact hbefore
      · rw [← hafter]
        rcases count with - | - | - | count
        · omega
        · omega
        · rfl
        · simp [World.hold, commitWrites, Write.perform, Router.publish, Router.write]
  | fail | recover =>
    obtain ⟨hdisk, himages⟩ := @recover_frame _ (fun journal => (journal.before, journal.after))
      (fun _ _ => rfl) env w.router
    exact ⟨allDated_of_map hd himages, Or.inl (congrArg Disk.state hdisk)⟩

theorem step_dated (h : Step env js uci intentDigest w act t) (hd : AllDated w) :
    AllDated t ∧ Advances w t := by
  cases h with
  | call _ hp => exact ⟨hd, call_advances hp⟩
  | stop _ hp => exact ⟨hd, call_advances hp⟩
  | stopCut | guard => exact ⟨hd, Or.inl rfl⟩
  | engine h =>
    obtain ⟨-, -, -, -, hr⟩ := engineStep_frame h
    exact ⟨allDated_of_map hd (by rw [hr]), Or.inl (by rw [hr])⟩
  | update h =>
    obtain ⟨-, -, hj⟩ := updateStep_frame h
    exact ⟨allDated_of_map hd (by rw [hj]), Or.inl (congrArg Disk.state (updateStep_marks h).2)⟩
  | worker h =>
    obtain ⟨-, hr⟩ := workerStep_frame h
    exact ⟨allDated_of_map hd (by rw [hr]), Or.inl (by rw [hr])⟩
  | restore h => exact restoreStep_dated h hd

/-- The file `u` has is the one `v` has, or an older one. -/
def Precedes (u v : World) : Prop :=
  v.router.disk.state = u.router.disk.state ∨
    ∃ older newer : ℕ, u.router.disk.state.revision = .value (older : ℤ) ∧
      v.router.disk.state.revision = .value (newer : ℤ) ∧ older < newer

theorem Precedes.step (h : Precedes u v) (hs : Advances v t) : Precedes u t := by
  rcases hs with he | ⟨revision, hv, ht⟩
  · unfold Precedes
    rw [he]
    exact h
  · rcases h with he | ⟨older, newer, hu, hv', hlt⟩
    · exact Or.inr ⟨revision, revision + 1, he ▸ hv, ht, Nat.lt_succ_self _⟩
    · rw [hv', Field.value.injEq] at hv
      exact Or.inr ⟨older, revision + 1, hu, ht, by omega⟩

theorem run_precedes (h : Run (Step env js uci intentDigest) u ys v) (hd : AllDated u) :
    Precedes u v := by
  have hinv : AllDated v ∧ Precedes u v :=
    h.invariant (I := fun v => AllDated v ∧ Precedes u v)
      (fun _ _ _ hi hs =>
        ⟨(step_dated hs hi.1).1, hi.2.step (step_dated hs hi.1).2⟩) ⟨hd, Or.inl rfl⟩
  exact hinv.2

/-- An accepted call found the revision it expects, unless the journal let it through. -/
theorem call_expected {request : Rpc.Request} {out : Outside} {revision : Field ℤ}
    (h : Step env js uci intentDigest u (.call request out) v)
    (he : request.expected = some revision)
    (ha : ∀ current, Rpc.stateRecord env out u.router.disk = .ok current →
      out.revisionAllowed = revocationRevisionAllowed u.router revision current) :
    ∃ found left current, Rpc.stateRecord env out u.router.disk = .ok current ∧
      Rpc.Leaves env out u.router.disk v.router.disk found left ∧
      Rpc.Expected request revision (revocationRevisionAllowed u.router revision current) found
        left := by
  have hp : Rpc.perform env intentDigest out u.router.disk request = .ok v.router.disk := by
    cases h with
    | call _ hp => exact hp
    | stop _ hp => exact hp
  obtain ⟨found, left, hleaves, hexpected⟩ := Rpc.perform_expected hp he
  obtain ⟨current, hcurrent⟩ := hleaves.read
  rw [ha current hcurrent] at hexpected
  exact ⟨found, left, current, hcurrent, hleaves, hexpected⟩

/-- Along a run from a router without a journal two contents of state.json with one revision are
equal, and an accepted call found the revision it expects, unless `revocation_revision_allowed`
let it through, and left that revision or the next. -/
theorem optimistic_revision {router : Router} {intent : ℕ}
    (hrun : Run (Step env js uci intentDigest) (World.start router intent) xs u) :
    (∀ ys v, Run (Step env js uci intentDigest) u ys v →
      v.router.disk.state.revision = u.router.disk.state.revision →
      v.router.disk.state = u.router.disk.state) ∧
    ∀ request out v revision, Step env js uci intentDigest u (.call request out) v →
      request.expected = some revision →
      (∀ current, Rpc.stateRecord env out u.router.disk = .ok current →
        out.revisionAllowed = revocationRevisionAllowed u.router revision current) →
      ∃ found left current, Rpc.stateRecord env out u.router.disk = .ok current ∧
        Rpc.Leaves env out u.router.disk v.router.disk found left ∧
        Rpc.Expected request revision (revocationRevisionAllowed u.router revision current) found
          left := by
  constructor
  · intro ys v hlater he
    have hdated : AllDated u :=
      hrun.invariant (I := AllDated) (fun _ _ _ hd hs => (step_dated hs hd).1)
        (fun journal hj => by cases hj)
    rcases run_precedes hlater hdated with hsame | ⟨older, newer, hu, hv, hlt⟩
    · exact hsame
    · rw [hu, hv, Field.value.injEq] at he
      omega
  · intro request out v revision hcall he ha
    exact call_expected hcall he ha

/-- A Stop while an engine worker runs, and what is known of the two states. -/
theorem optimistic_revision_stop :
    (∀ ys v, Run (Step serverEnv anyJson switchUci noDigest) offWorld ys v →
      v.router.disk.state.revision = offWorld.router.disk.state.revision →
      v.router.disk.state = offWorld.router.disk.state) ∧
    ∀ request out v revision, Step serverEnv anyJson switchUci noDigest offWorld
      (.call request out) v →
      request.expected = some revision →
      (∀ current, Rpc.stateRecord serverEnv out offWorld.router.disk = .ok current →
        out.revisionAllowed = revocationRevisionAllowed offWorld.router revision current) →
      ∃ found left current, Rpc.stateRecord serverEnv out offWorld.router.disk = .ok current ∧
        Rpc.Leaves serverEnv out offWorld.router.disk v.router.disk found left ∧
        Rpc.Expected request revision (revocationRevisionAllowed offWorld.router revision current)
          found left :=
  optimistic_revision (start_working.stepR stop_working)

end Maintenance
end Foxhole
