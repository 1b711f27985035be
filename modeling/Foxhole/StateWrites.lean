import Foxhole.Listeners

/-! How the calls write state.json: read, change, write back one revision later. -/
namespace Foxhole.Rpc
open Check Text

variable {env : Env} {intentDigest : Mobile.Intent → Text} {out : Outside} {disk disk' : Disk}
  {raw : RawState} {state state' before after : State}

theorem validateState_marks (h : Model.validateState env raw = .ok state) :
    raw.revision = .value state.revision ∧ raw.activeServerId = .ofOption state.activeServerId := by
  simp only [Model.validateState, bind_eq_ok, require_eq_ok, pure_eq_ok] at h
  obtain ⟨-, -, revision, hr, -, hpos, -, -, policy, -, servers, -, clients, -, vs, -,
    active, ha, cs,
    -, rfl⟩ := h
  constructor
  · cases hf : raw.revision <;> simp_all [Model.required]
  · unfold Model.checkActive at ha
    split at ha
    · rename_i he
      cases ha
      exact he
    · cases ha
    · rename_i he
      split at ha <;> cases ha
      exact he

theorem stateRecord_marks (h : stateRecord env out disk = .ok state) :
    ∃ before, Model.validateState env disk.state = .ok before ∧ state.revision = before.revision ∧
      state.activeServerId = before.activeServerId := by
  simp only [stateRecord, bind_eq_ok, pure_eq_ok] at h
  obtain ⟨before, hb, rfl⟩ := h
  exact ⟨before, hb, rfl, rfl⟩

/-- A call that read `before` and wrote `after` one revision later; only Start chooses a server. -/
structure Rewrites (env : Env) (request : Request) (raw raw' : RawState) (before after : State) :
    Prop where
  read : Model.validateState env raw = .ok before
  written : raw' = after.raw
  revision : after.revision = before.revision + 1
  active : (∀ args, request ≠ .startServer args) →
    after.activeServerId = before.activeServerId ∨ after.activeServerId = none

/-- state.json is left alone, or written one revision later. -/
def Written (env : Env) (request : Request) (raw raw' : RawState) : Prop :=
  raw' = raw ∨ ∃ before after, Rewrites env request raw raw' before after

variable {request : Request}

/-- What a call makes of the record it read, written one revision later. -/
theorem written_bump (h : stateRecord env out disk = .ok state)
    (hr : state'.revision = state.revision)
    (ha : (∀ args, request ≠ .startServer args) →
      state'.activeServerId = state.activeServerId ∨ state'.activeServerId = none) :
    Written env request disk.state (bump state').raw := by
  obtain ⟨before, hb, hrev, hact⟩ := stateRecord_marks h
  refine Or.inr ⟨before, bump state', hb, rfl, ?_, fun hn => ?_⟩
  · simp [bump, hr, hrev]
  · rw [← hact]
    exact ha hn

theorem saveServer_written {args : ServerArgs}
    (h : saveServer env out disk args = .ok disk') :
    Written env (.saveServer args) disk.state disk'.state := by
  simp only [saveServer, bind_eq_ok] at h
  obtain ⟨parsed, -, subscription, -, -, -, ⟨id, given⟩, -, name, -, state, hst, h⟩ := h
  split at h
  · cases h
    exact written_bump (stateAt_record hst) rfl fun _ => Or.inl rfl
  · simp only [bind_eq_ok, pure_eq_ok] at h
    obtain ⟨-, -, rfl⟩ := h
    exact written_bump (stateAt_record hst) rfl fun _ => Or.inl rfl

theorem deleteServer_written {args : IdArgs} (h : deleteServer env out disk args = .ok disk') :
    Written env (.deleteServer args) disk.state disk'.state := by
  simp only [deleteServer, bind_eq_ok, pure_eq_ok] at h
  obtain ⟨state, hst, -, -, rfl⟩ := h
  refine written_bump (stateAt_record hst) rfl fun _ => ?_
  by_cases ha : state.activeServerId = some args.id
  · exact Or.inr (by simp [ha])
  · exact Or.inl (by simp [ha])

theorem startServer_written {args : IdArgs} (h : startServer env out disk args = .ok disk') :
    Written env (.startServer args) disk.state disk'.state := by
  simp only [startServer, bind_eq_ok] at h
  obtain ⟨state, hst, h⟩ := h
  split at h
  · simp at h
  · simp only [bind_eq_ok] at h
    obtain ⟨-, -, h⟩ := h
    split at h <;> cases h
    · exact Or.inl rfl
    · exact written_bump (stateAt_record hst) rfl fun hn => absurd rfl (hn args)

theorem stopServer_written {revision : Field ℤ} (h : stopServer env out disk revision = .ok disk') :
    Written env (.stopServer revision) disk.state disk'.state := by
  simp only [stopServer, bind_eq_ok] at h
  obtain ⟨state, hst, h⟩ := h
  split at h <;> cases h
  · exact Or.inl rfl
  · exact written_bump (stateForRevocation_record hst) rfl fun _ => Or.inr rfl

theorem deleteClient_written {args : IdArgs} {revoked : Bool}
    (h : deleteClient env out disk args = .ok (disk', revoked)) :
    Written env (.deleteClient args) disk.state disk'.state := by
  simp only [deleteClient, bind_eq_ok] at h
  obtain ⟨state, hst, h⟩ := h
  split at h
  · simp at h
  · split at h
    · simp only [bind_eq_ok, pure_eq_ok] at h
      obtain ⟨_, -, he⟩ := h
      cases he
      exact written_bump (stateForRevocation_record hst) rfl fun _ => Or.inl rfl
    · cases h
      exact written_bump (stateForRevocation_record hst) rfl fun _ => Or.inl rfl

theorem applyDevice_marks {phone : Mobile.Phone} {new : Bool}
    (h : Mobile.applyDevice state phone = .ok (state', new)) :
    state'.revision = state.revision ∧ state'.activeServerId = state.activeServerId := by
  unfold Mobile.applyDevice at h
  split at h
  · cases h
    exact ⟨rfl, rfl⟩
  · simp only [bind_eq_ok] at h
    obtain ⟨-, -, h⟩ := h
    split at h <;> cases h <;> exact ⟨rfl, rfl⟩

theorem applyClient_marks {phone : Mobile.Phone} {new : Bool}
    (h : Mobile.applyClient state phone = .ok (state', new)) :
    state'.revision = state.revision ∧ state'.activeServerId = state.activeServerId := by
  unfold Mobile.applyClient at h
  split at h
  · cases h
    exact ⟨rfl, rfl⟩
  · simp only [bind_eq_ok] at h
    obtain ⟨-, -, h⟩ := h
    split at h <;> cases h <;> exact ⟨rfl, rfl⟩

theorem ofOption_inj {α : Type} {a b : Option α} (h : Field.ofOption a = Field.ofOption b) :
    a = b := by
  cases a <;> cases b <;> simp_all [Field.ofOption]

/-- The members of a state that reading it back keeps. -/
theorem validateState_raw_marks (h : Model.validateState env state.raw = .ok state') :
    state'.revision = state.revision ∧ state'.activeServerId = state.activeServerId := by
  obtain ⟨hr, ha⟩ := validateState_marks h
  have hr' : (state.revision : ℤ) = state'.revision := by simpa [State.raw] using hr
  exact ⟨by omega, (ofOption_inj ha).symm⟩

theorem apply_marks {phone : Mobile.Phone} {changed : Bool}
    (h : Mobile.apply env state phone = .ok (state', changed)) :
    state'.revision = (if changed then state.revision + 1 else state.revision) ∧
      state'.activeServerId = state.activeServerId := by
  simp only [Mobile.apply, bind_eq_ok, pure_eq_ok] at h
  obtain ⟨s₀, h₀, ⟨s₁, d⟩, h₁, ⟨s₂, c⟩, h₂, s₃, h₃, he⟩ := h
  cases he
  obtain ⟨hr₀, ha₀⟩ := validateState_raw_marks h₀
  obtain ⟨hr₁, ha₁⟩ := applyDevice_marks h₁
  obtain ⟨hr₂, ha₂⟩ := applyClient_marks h₂
  obtain ⟨hr₃, ha₃⟩ := validateState_raw_marks h₃
  cases hdc : (d || c) <;> simp_all

theorem provision_written {paired : Pairing.Session} {args : ProvisionArgs} {p : Provision}
    (h : prepareProvision env intentDigest out disk paired args = .ok p) :
    Written env (.provision paired args) disk.state (p.files disk).state := by
  obtain ⟨state, stored, phone, prepared, hst, -, -, -, -, ha⟩ := prepareProvision_ok h
  cases hc : p.changed
  · exact Or.inl (by simp [Provision.files, hc])
  · obtain ⟨before, hb, hrev, hact⟩ := stateRecord_marks hst
    obtain ⟨hr, ha⟩ := apply_marks ha
    refine Or.inr ⟨before, p.state, hb, by simp [Provision.files, hc], ?_, fun _ => Or.inl ?_⟩
    · simp [hr, hc, hrev]
    · rw [ha, hact]

/-- Every call leaves state.json alone or writes it one revision later. -/
theorem perform_written (h : perform env intentDigest out disk request = .ok disk') :
    Written env request disk.state disk'.state := by
  cases request with
  | settings args =>
    simp only [perform, settingsCall, bind_eq_ok, pure_eq_ok] at h
    obtain ⟨state, hst, _, -, rfl⟩ := h
    exact written_bump (stateAt_record hst) rfl fun _ => Or.inl rfl
  | saveServer args => exact saveServer_written h
  | deleteServer args => exact deleteServer_written h
  | startServer args => exact startServer_written h
  | stopServer revision => exact stopServer_written h
  | saveClient args =>
    simp only [perform, saveClient, bind_eq_ok, pure_eq_ok] at h
    obtain ⟨name, -, -, -, state, hst, serverId, -, client, -, rfl⟩ := h
    exact written_bump (stateAt_record hst) rfl fun _ => Or.inl rfl
  | updateClient args name =>
    simp only [perform, updateClient, bind_eq_ok, pure_eq_ok] at h
    obtain ⟨_, -, state, hst, -, -, rfl⟩ := h
    exact written_bump (stateAt_record hst) rfl fun _ => Or.inl rfl
  | clientAccess args allowLan =>
    simp only [perform, clientAccess, bind_eq_ok, pure_eq_ok] at h
    obtain ⟨-, -, state, hst, -, -, rfl⟩ := h
    exact written_bump (stateForRevocation_record hst) rfl fun _ => Or.inl rfl
  | deleteClient args =>
    simp only [perform, map_eq_ok] at h
    obtain ⟨⟨d, revoked⟩, hd, rfl⟩ := h
    exact deleteClient_written hd
  | provision paired args =>
    simp only [perform, map_eq_ok] at h
    obtain ⟨p, hp, rfl⟩ := h
    exact provision_written hp
  | provisionCut paired args =>
    simp only [perform, map_eq_ok] at h
    obtain ⟨p, -, rfl⟩ := h
    exact Or.inl rfl
  | provisionRefused createRemote =>
    simp only [perform, bind_eq_ok, pure_eq_ok] at h
    obtain ⟨_, -, rfl⟩ := h
    exact Or.inl rfl
  | setupReset revision =>
    simp only [perform, setupReset, bind_eq_ok, pure_eq_ok] at h
    obtain ⟨state, hst, -, -, rfl⟩ := h
    obtain ⟨before, hb, hrev, -⟩ := stateRecord_marks (stateAt_record hst)
    exact Or.inr ⟨before, { Model.defaults with revision := state.revision + 1 }, hb, rfl,
      by simp [hrev], fun _ => Or.inr rfl⟩
  | pairCreate | pairRevoke =>
    simp only [perform, bind_eq_ok, pure_eq_ok] at h
    obtain ⟨_, -, rfl⟩ := h
    exact Or.inl rfl
  | setPin =>
    cases h
    exact Or.inl rfl

end Foxhole.Rpc
