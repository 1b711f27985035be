import Foxhole.PublicState

/-! What a call that fails has written: the public state is told behind the write, and the calls on
clients build the exported profile there. -/
namespace Foxhole.Rpc
open Check Text

/-- The calls that change the settings, the servers and the clients. -/
inductive Call where
  | settings (args : SettingsArgs)
  | saveServer (args : ServerArgs)
  | deleteServer (args : IdArgs)
  | startServer (args : IdArgs)
  | saveClient (args : ClientArgs)
  | updateClient (args : IdArgs) (name : Text)
  | clientAccess (args : IdArgs) (allowLan : Bool)
deriving DecidableEq

def Call.request : Call → Request
  | .settings args => .settings args
  | .saveServer args => .saveServer args
  | .deleteServer args => .deleteServer args
  | .startServer args => .startServer args
  | .saveClient args => .saveClient args
  | .updateClient args name => .updateClient args name
  | .clientAccess args allowLan => .clientAccess args allowLan

/-- The client whose profile a call returns, in the files it has written. -/
def Call.subject (disk : Disk) : Call → Option Client
  | .saveClient _ => disk.clients.getLast?
  | .updateClient args _ => disk.clients.find? fun client => client.key = args.id
  | .clientAccess args _ => disk.clients.find? fun client => client.key = args.id && client.inbound
  | _ => none

/-- A whole call: the files it leaves, and its answer. `admitted` is what `guard_mutation` and
`session` say, before anything else. The restart of the runtime, which does not fail, is left
out. -/
def answer (env : Env) (syn : Syntax env) (intentDigest : Mobile.Intent → Text)
    (file : Option InboundFile) (out : Outside) (admitted : Except Err Unit) (view : View)
    (disk : Disk)
    (call : Call) : Disk × Except Err (PublicState × Option Profile) :=
  match admitted >>= fun _ => perform env intentDigest out (disk.on file) call.request with
  | .error e => (disk.on file, .error e)
  | .ok written => (written, do
    let state ← publicState view written
    match call.subject written with
    | none => return (state, none)
    | some client => do
      let profile ← clientExport syn file written.servers client
      return (state, some profile))

/-- A start of the server that is active already, which writes nothing. -/
def Call.Idle (disk : Disk) : Call → Prop
  | .startServer args => disk.state.activeServerId = .value args.id
  | _ => False

/-- The server a new client is bound to. -/
def chosenId (servers : List Server) (serverId : Field Text) : Field Text :=
  match serverId with
  | .missing | .value [] => (match servers with
    | [] => .missing
    | server :: _ => .value server.key)
  | serverId => serverId

/-- The client that `save_client` stores, without its name and its device type. -/
def nextClient (file : Option InboundFile) (out : Outside) (disk : Disk) (serverId : Field Text) :
    Client :=
  let client := outgoingClient ("client-".toList ++ out.draw.id) [] []
    (chosenId disk.servers serverId)
  match file with
  | none => client
  | some file => { client with
    inbound := true
    port := Inbound.freePort file.base (Inbound.usedPorts disk.clients)
    secret := .value out.draw.secret.1
    serverId := .missing }

/-- The profile that the call returns can be built. -/
def Exports {env : Env} (syn : Syntax env) (file : Option InboundFile) (out : Outside)
    (disk : Disk) :
    Call → Prop
  | .saveClient args =>
    Succeeds (clientExport syn file disk.servers (nextClient file out disk args.serverId))
  | .updateClient args _ => ∀ client, disk.clients.find? (fun client => client.key = args.id) =
    some client →
    Succeeds (clientExport syn file disk.servers client)
  | .clientAccess args _ => ∀ client,
    disk.clients.find? (fun client => client.key = args.id && client.inbound) = some client →
    Succeeds (clientExport syn file disk.servers client)
  | _ => True

section
variable {env : Env} {syn : Syntax env} {intentDigest : Mobile.Intent → Text}
  {file : Option InboundFile} {out : Outside} {disk disk' : Disk} {call : Call}
  {state state' : State}

theorem chooseServer_chosen {serverId chosen : Field Text}
    (h : chooseServer state serverId = .ok chosen) : chosen = chosenId state.servers serverId := by
  unfold chooseServer at h
  unfold chosenId
  split at h
  · cases h
    rfl
  · cases h
    rfl
  · cases h
  · rename_i id hne _
    split at h
    · cases h
      cases id <;> simp_all
    · cases h

/-- A state that is written back one revision later is another file. -/
theorem bump_ne (h : stateRecord env out disk = .ok state) (hr : state'.revision = state.revision) :
    (disk.write (bump state')).state ≠ disk.state := by
  obtain ⟨before, hb, hrev, -⟩ := stateRecord_marks h
  intro he
  have hraw := (validateState_marks hb).1
  rw [← he] at hraw
  have hbump : ((state'.revision + 1 : ℕ) : ℤ) = before.revision := by
    simpa [Disk.write, State.raw, bump] using hraw
  omega

theorem find?_mapFirst {p : Client → Bool} {f : Client → Client} (hp : ∀ c, p (f c) = p c)
    (clients : List Client) : (mapFirst p f clients).find? p = (clients.find? p).map f := by
  induction clients with
  | nil => rfl
  | cons client clients ih =>
    unfold mapFirst
    cases hc : p client
    · simp [hc, ih]
    · simp [hc, hp]

/-- Whether the profile can be built is told before the write. -/
theorem subject_exports (h : perform env intentDigest out (disk.on file) call.request = .ok disk')
    {client : Client} (hs : call.subject disk' = some client) :
    Succeeds (clientExport syn file disk'.servers client) ↔ Exports syn file out disk call := by
  cases call with
  | saveClient args =>
    simp only [Call.request, perform, saveClient, bind_eq_ok, pure_eq_ok] at h
    obtain ⟨name, -, -, -, state, hst, chosen, hc, saved, hsaved, rfl⟩ := h
    have hrecord := stateAt_record hst
    obtain ⟨hservers, hclients⟩ := stateRecord_lists hrecord
    have hsubject : client = saved := by
      simpa [Call.subject, Disk.clients, Disk.write, State.raw, bump, eq_comm] using hs
    have hlist : (disk.on file).servers = state.servers := hservers
    obtain rfl := chooseServer_chosen hc
    subst hsubject
    rw [← hlist] at hsaved
    cases file with
    | none =>
      cases hsaved
      change Succeeds (clientExport syn none state.servers _) ↔ _
      rw [← hlist]
      exact clientExport_congr rfl rfl rfl rfl rfl
    | some file =>
      simp only [savedClient, Disk.on, Option.map_some, listener, bind_eq_ok, pure_eq_ok] at hsaved
      obtain ⟨-, -, rfl⟩ := hsaved
      have hports : state.clients = disk.clients := hclients.symm
      change Succeeds (clientExport syn (some file) state.servers _) ↔ _
      rw [← hlist]
      refine clientExport_congr rfl rfl ?_ rfl rfl
      simp [nextClient, hports]
  | updateClient args name =>
    simp only [Call.request, perform, updateClient, bind_eq_ok, pure_eq_ok] at h
    obtain ⟨new, -, state, hst, -, -, rfl⟩ := h
    have hrecord := stateAt_record hst
    obtain ⟨hservers, hclients⟩ := stateRecord_lists hrecord
    have hlist : disk.clients = state.clients := hclients
    have hfind := @find?_mapFirst (fun client => client.key = args.id)
      (fun client => { client with name := .value new }) (fun _ => rfl) state.clients
    have hs' : (state.clients.find? fun client => client.key = args.id).map
        (fun client => { client with name := .value new }) = some client := by
      rw [← hfind]
      exact hs
    obtain ⟨old, hold, rfl⟩ := Option.map_eq_some_iff.1 hs'
    have hsame : Succeeds (clientExport syn file disk.servers { old with name := .value new }) ↔
        Succeeds (clientExport syn file disk.servers old) :=
      clientExport_congr rfl rfl rfl rfl rfl
    have hwritten : (Disk.write (disk.on file) (bump { state with
        clients := mapFirst (·.key = args.id) (fun client => { client with name := .value new })
          state.clients })).servers = disk.servers := hservers.symm
    rw [hwritten, hsame]
    simp [Exports, hlist, hold]
  | clientAccess args allowLan =>
    simp only [Call.request, perform, clientAccess, bind_eq_ok, pure_eq_ok] at h
    obtain ⟨-, -, state, hst, -, -, rfl⟩ := h
    have hrecord := stateForRevocation_record hst
    obtain ⟨hservers, hclients⟩ := stateRecord_lists hrecord
    have hlist : disk.clients = state.clients := hclients
    have hfind := @find?_mapFirst (fun client => client.key = args.id && client.inbound)
      (fun client => { client with allowLan := .value allowLan }) (fun _ => rfl) state.clients
    have hs' : (state.clients.find? fun client => client.key = args.id && client.inbound).map
        (fun client => { client with allowLan := .value allowLan }) = some client := by
      rw [← hfind]
      exact hs
    obtain ⟨old, hold, rfl⟩ := Option.map_eq_some_iff.1 hs'
    have hsame :
        Succeeds (clientExport syn file disk.servers { old with allowLan := .value allowLan }) ↔
        Succeeds (clientExport syn file disk.servers old) :=
      clientExport_congr rfl rfl rfl rfl rfl
    have hwritten : (Disk.write (disk.on file) (bump { state with
        clients := mapFirst (fun client => client.key = args.id && client.inbound)
          (fun client => { client with allowLan := .value allowLan }) state.clients })).servers =
        disk.servers := hservers.symm
    rw [hwritten, hsame]
    simp [Exports, hlist, hold]
  | settings | saveServer | deleteServer | startServer => cases hs

/-- A client call that went through has a client to export. -/
theorem subject_isSome (h : perform env intentDigest out (disk.on file) call.request = .ok disk')
    (hs : call.subject disk' = none) : Exports syn file out disk call := by
  cases call with
  | saveClient args =>
    simp only [Call.request, perform, saveClient, bind_eq_ok, pure_eq_ok] at h
    obtain ⟨name, -, -, -, state, -, chosen, -, saved, -, rfl⟩ := h
    simp [Call.subject, Disk.clients, Disk.write, State.raw, bump] at hs
  | updateClient args name =>
    simp only [Call.request, perform, updateClient, bind_eq_ok, require_eq_ok, pure_eq_ok] at h
    obtain ⟨new, -, state, -, -, hany, rfl⟩ := h
    have hfind := @find?_mapFirst (fun client => client.key = args.id)
      (fun client => { client with name := .value new }) (fun _ => rfl) state.clients
    have hnone : (state.clients.find? fun client => client.key = args.id).map
        (fun client => { client with name := .value new }) = none := by
      rw [← hfind]
      exact hs
    obtain ⟨client, hm, hc⟩ := List.any_eq_true.1 hany
    exact absurd hc (List.find?_eq_none.1 (Option.map_eq_none_iff.1 hnone) client hm)
  | clientAccess args allowLan =>
    simp only [Call.request, perform, clientAccess, bind_eq_ok, require_eq_ok, pure_eq_ok] at h
    obtain ⟨-, -, state, -, -, hany, rfl⟩ := h
    have hfind := @find?_mapFirst (fun client => client.key = args.id && client.inbound)
      (fun client => { client with allowLan := .value allowLan }) (fun _ => rfl) state.clients
    have hnone : (state.clients.find? fun client => client.key = args.id && client.inbound).map
        (fun client => { client with allowLan := .value allowLan }) = none := by
      rw [← hfind]
      exact hs
    obtain ⟨client, hm, hc⟩ := List.any_eq_true.1 hany
    exact absurd hc (List.find?_eq_none.1 (Option.map_eq_none_iff.1 hnone) client hm)
  | settings | saveServer | deleteServer | startServer => trivial

/-- A call that goes through writes state.json, unless there is nothing to start. -/
theorem perform_changes (h : perform env intentDigest out (disk.on file) call.request = .ok disk') :
    disk'.state = disk.state ↔ call.Idle disk := by
  have hwrite : ∀ {state state' : State}, stateRecord env out (disk.on file) = .ok state →
      state'.revision = state.revision →
      (((disk.on file).write (bump state')).state = disk.state ↔ False) := fun hst hr =>
    iff_false_intro (bump_ne hst hr)
  cases call with
  | settings args =>
    simp only [Call.request, perform, settingsCall, bind_eq_ok, pure_eq_ok] at h
    obtain ⟨state, hst, _, -, rfl⟩ := h
    exact hwrite (stateAt_record hst) rfl
  | saveServer args =>
    simp only [Call.request, perform, saveServer, bind_eq_ok] at h
    obtain ⟨parsed, -, subscription, -, -, -, ⟨id, given⟩, -, name, -, state, hst, h⟩ := h
    split at h
    · cases h
      exact hwrite (stateAt_record hst) rfl
    · simp only [bind_eq_ok, pure_eq_ok] at h
      obtain ⟨-, -, rfl⟩ := h
      exact hwrite (stateAt_record hst) rfl
  | deleteServer args =>
    simp only [Call.request, perform, deleteServer, bind_eq_ok, pure_eq_ok] at h
    obtain ⟨state, hst, -, -, rfl⟩ := h
    exact hwrite (stateAt_record hst) rfl
  | startServer args =>
    simp only [Call.request, perform, startServer, bind_eq_ok] at h
    obtain ⟨state, hst, h⟩ := h
    obtain ⟨before, hb, -, hactive⟩ := stateRecord_marks (stateAt_record hst)
    have hraw : disk.state.activeServerId = .ofOption state.activeServerId := by
      rw [hactive]
      exact (validateState_marks hb).2
    have hidle : (Call.startServer args).Idle disk ↔ state.activeServerId = some args.id := by
      change disk.state.activeServerId = .value args.id ↔ _
      rw [hraw]
      cases state.activeServerId <;> simp
    rw [hidle]
    split at h
    · simp at h
    · simp only [bind_eq_ok] at h
      obtain ⟨-, -, h⟩ := h
      split at h
      · next hsame =>
        cases h
        simp [hsame, Disk.on]
      · next hother =>
        cases h
        have hchanged : ((disk.on file).write (bump { state with
            activeServerId := some args.id })).state = disk.state ↔ False :=
          hwrite (stateAt_record hst) rfl
        simpa [hother] using hchanged
  | saveClient args =>
    simp only [Call.request, perform, saveClient, bind_eq_ok, pure_eq_ok] at h
    obtain ⟨name, -, -, -, state, hst, chosen, -, saved, -, rfl⟩ := h
    exact hwrite (stateAt_record hst) rfl
  | updateClient args name =>
    simp only [Call.request, perform, updateClient, bind_eq_ok, pure_eq_ok] at h
    obtain ⟨new, -, state, hst, -, -, rfl⟩ := h
    exact hwrite (stateAt_record hst) rfl
  | clientAccess args allowLan =>
    simp only [Call.request, perform, clientAccess, bind_eq_ok, pure_eq_ok] at h
    obtain ⟨-, -, state, hst, -, -, rfl⟩ := h
    exact hwrite (stateForRevocation_record hst) rfl

/-- A call answers exactly when the two files can be read and the profile can be built. -/
theorem succeeds_answer {admitted : Except Err Unit} {view : View} {written : Disk}
    (h : (admitted >>= fun _ => perform env intentDigest out (disk.on file) call.request) =
      .ok written) :
    Succeeds (answer env syn intentDigest file out admitted view disk call).2 ↔
      view.Readable ∧ Exports syn file out disk call := by
  obtain ⟨-, -, hp⟩ := bind_eq_ok.1 h
  have hpublic : Succeeds (publicState view written) ↔ view.Readable := succeeds_publicState
  rw [← hpublic]
  unfold answer
  rw [h]
  cases hs : call.subject written with
  | none =>
    have hexports : Exports syn file out disk call := subject_isSome hp hs
    simp only [hs, succeeds_bind, hexports, and_true]
    constructor
    · rintro ⟨state, hstate, -⟩
      exact ⟨state, hstate⟩
    · rintro ⟨state, hstate⟩
      exact ⟨state, hstate, succeeds_ok⟩
  | some client =>
    rw [← subject_exports hp hs]
    simp only [hs, succeeds_bind]
    constructor
    · rintro ⟨state, hstate, profile, hprofile, -⟩
      exact ⟨⟨state, hstate⟩, profile, hprofile⟩
    · rintro ⟨⟨state, hstate⟩, profile, hprofile⟩
      exact ⟨state, hstate, profile, hprofile, succeeds_ok⟩

/-- A call that ends in an error leaves state.json alone exactly when it fails before its write, or
it writes nothing, or the public state can be told and the profile it returns can be built. -/
theorem error_atomic_iff {admitted : Except Err Unit} {view : View} :
    (∀ e, (answer env syn intentDigest file out admitted view disk call).2 = .error e →
      (answer env syn intentDigest file out admitted view disk call).1.state = disk.state) ↔
    ∀ written,
      (admitted >>= fun _ => perform env intentDigest out (disk.on file) call.request) =
      .ok written →
      call.Idle disk ∨ view.Readable ∧ Exports syn file out disk call := by
  cases hp : admitted >>= fun _ => perform env intentDigest out (disk.on file) call.request with
  | error e =>
    unfold answer
    rw [hp]
    simp [Disk.on]
  | ok written =>
    have hstate : (answer env syn intentDigest file out admitted view disk call).1 = written := by
      unfold answer
      rw [hp]
    obtain ⟨-, -, hperform⟩ := bind_eq_ok.1 hp
    rw [hstate, perform_changes hperform]
    simp only [Except.ok.injEq, forall_eq', ← succeeds_answer hp]
    cases hanswer : (answer env syn intentDigest file out admitted view disk call).2 with
    | error e => simp
    | ok result => simp

/-- The text of an object with schemaVersion 1, type vless, server a.b and port 443. -/
def coreText : Text :=
  [123, 34, 115, 99, 104, 101, 109, 97, 86, 101, 114, 115, 105, 111, 110, 34, 58, 49, 44, 34,
   116, 121, 112, 101, 34, 58, 34, 118, 108, 101, 115, 115, 34, 44, 34, 115, 101, 114, 118,
   101, 114, 34, 58, 34, 97, 46, 98, 34, 44, 34, 112, 111, 114, 116, 34, 58, 52, 52, 51, 125].map
     Char.ofNat

/-- The core decoder reads that text; `parse_config` finds members it does not know. -/
def coreEnv : Env :=
  { plainEnv with
    coreJson := fun _ => some ⟨.value 1, .value "vless".toList, .value ['a', '.', 'b'], .value 443⟩
    parseBody := fun _ => .error .unsupportedConfig }

def coreSyntax : Syntax coreEnv where
  config := fun _ => .error .unsupportedConfig
  fits := fun _ => true
  config_parseBody := fun _ => Iff.rfl.trans (by simp [coreEnv])

def coreServer : Server where
  id := .value "server-000000000001".toList
  name := .value ['a']
  endpoint := .value ['a', '.', 'b', ':', '4', '4', '3']
  config := .value coreText
  engine := Model.engineCore
  protocol := .value "vless".toList

def coreDisk (revision : ℕ) (clients : List Client) : Disk where
  state := { Model.defaults with revision, servers := [coreServer], clients : State }.raw

def coreClient : Client :=
  outgoingClient "client-000000000001".toList ['a'] "smartphone".toList (.value coreServer.key)

/-- Without inbound.json a client is bound to the one server there is. -/
def saveCore : Call := .saveClient ⟨.value 0, ['a'], "smartphone".toList, .missing⟩

theorem core_accepted : Accepted coreEnv (coreDisk 0 []).state :=
  ⟨{ Model.defaults with servers := [coreServer] }, by decide⟩

theorem core_saved : perform coreEnv (fun _ => []) (plainOutside '1' rfl) ((coreDisk 0 []).on none)
    saveCore.request = .ok (coreDisk 1 [coreClient]) := by decide

/-- The client is stored, and then its profile cannot be built from the configuration of a core
server. -/
theorem not_error_atomic : ¬ ∀ (env : Env) (syn : Syntax env) (intentDigest : Mobile.Intent → Text)
    (file : Option InboundFile) (out : Outside) (admitted : Except Err Unit) (view : View)
    (disk : Disk)
    (call : Call) (e : Err), Accepted env disk.state →
    (answer env syn intentDigest file out admitted view disk call).2 = .error e →
    (answer env syn intentDigest file out admitted view disk call).1.state = disk.state := by
  intro h
  have hanswer : answer coreEnv coreSyntax (fun _ => []) none (plainOutside '1' rfl) (.ok ()) {}
      (coreDisk 0 []) saveCore = (coreDisk 1 [coreClient], .error .unsupportedConfig) := by
    have hwritten : ((.ok () : Except Err Unit) >>= fun _ => perform coreEnv (fun _ => [])
        (plainOutside '1' rfl) ((coreDisk 0 []).on none) saveCore.request) =
        .ok (coreDisk 1 [coreClient]) := core_saved
    unfold answer
    rw [hwritten]
    rfl
  have hstate := h coreEnv coreSyntax (fun _ => []) none (plainOutside '1' rfl) (.ok ()) {}
    (coreDisk 0 []) saveCore .unsupportedConfig core_accepted (by rw [hanswer])
  rw [hanswer] at hstate
  have hrevision : ((1 : ℕ) : ℤ) = ((0 : ℕ) : ℤ) :=
    Field.value.inj (congrArg RawState.revision hstate)
  omega

end
end Foxhole.Rpc
