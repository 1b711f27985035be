import Foxhole.StateInvariant
import Foxhole.Supervisor

/-! What the router is left with when a start or a supervisor has ended: the guard of the VPN
mark in the kernel, and no other way out of table 201 than the tunnel. -/
namespace Foxhole.Supervisor
open Check Text Routing Nft Command Foxhole.Runtime

variable {env : Env} {inet : Inet} {state : State} {r r' s t : Router} {a : Attempt} {c : Call}
  {f : Foreground} {o : Supervision} {storage connected emergency : Bool} {table : RouteTable}
  {family : Family} {e : Err}

/-- The rule that keeps a packet with the VPN mark from leaving anywhere but the tunnel. -/
def guardRule : Rule where
  conditions := [.markAny mark, .oifnameNot tunName]
  verdict := .drop

/-- Table `inet foxhole` is loaded, with its guard. -/
def Guarded (r : Router) :
    Prop := ∃ table, r.table = some table ∧ guardRule ∈ table.chains .guardEgress

/-- A default route that lets nothing out besides the tunnel. -/
def Closed (route : DefaultRoute) : Prop := route = .prohibit ∨ route = .dev tunName

/-- Every default route in table 201 is closed. -/
def RoutesClosed (r : Router) : Prop := ∀ family, ∀ route ∈ r.routes .vpn family, Closed route

structure Protected (r : Router) : Prop where
  guarded : Guarded r
  routes : RoutesClosed r

/-- Every controller call keeps the routes closed. -/
def KeepsRoutes (s t : Router) : Prop := RoutesClosed s → RoutesClosed t

/-- All but the calls that take the policy out keep a loaded guard. -/
def Keeps (s t : Router) : Prop := KeepsRoutes s t ∧ (Guarded s → Guarded t)

theorem keepsRoutes_refl (s : Router) : KeepsRoutes s s := id

theorem keepsRoutes_trans (s t u : Router) (h : KeepsRoutes s t) (h' : KeepsRoutes t u) :
    KeepsRoutes s u := fun hs => h' (h hs)

theorem keeps_refl (s : Router) : Keeps s s := ⟨id, id⟩

theorem keeps_trans (s t u : Router) (h : Keeps s t) (h' : Keeps t u) : Keeps s u :=
  ⟨keepsRoutes_trans s t u h.1 h'.1, fun hs => h'.2 (h.2 hs)⟩

theorem routesClosed_boot : RoutesClosed boot := by
  intro family route h
  cases h

/-- A command on rules and routes leaves the table, and the routes closed when the one it puts
is. -/
theorem keeps_ip {command : IpCommand}
    (h : ∀ family route, command = .routeReplace .vpn family route → Closed route) :
    Keeps s (command.apply s) := by
  refine ⟨fun hs g route hg => ?_, fun hs => ?_⟩
  · cases command with
    | ruleDel => exact hs g route hg
    | ruleAdd => exact hs g route hg
    | routeReplace t f new =>
      simp only [IpCommand.apply, Router.setRoutes] at hg
      split at hg
      · obtain ⟨rfl, rfl⟩ := ‹_ ∧ _›
        rw [List.mem_singleton.1 hg]
        exact h _ new rfl
      · exact hs g route hg
    | routeFlush t f =>
      simp only [IpCommand.apply, Router.setRoutes] at hg
      split at hg
      · cases hg
      · exact hs g route hg
  · obtain ⟨table, ht, hg⟩ := hs
    refine ⟨table, ?_, hg⟩
    cases command <;> exact ht

theorem within_ip {command : IpCommand}
    (h : ∀ family route, command = .routeReplace .vpn family route → Closed route) :
    Within Keeps (modify command.apply : Command Err Router Unit) := fun _ => keeps_ip h

theorem within_clearRules {left : ℕ} : Within Keeps (clearRules a table family left) := by
  induction left with
  | zero => exact within_throw keeps_refl
  | succ left ih =>
    refine within_bind keeps_trans (within_get keeps_refl) fun r => ?_
    split
    · exact within_bind keeps_trans (within_ip nofun) fun _ => ih
    · exact within_pure keeps_refl

theorem within_runIp {command : IpCommand}
    (h : ∀ family route, command = .routeReplace .vpn family route → Closed route) :
    Within Keeps (runIp a command) :=
  within_bind keeps_trans (within_ensure keeps_refl) fun _ => within_ip h

theorem within_replaceRoutes : Within Keeps (replaceRoutes table connected a) := by
  have hclosed : Closed (if connected then .dev tunName else .prohibit) := by
    cases connected
    · exact Or.inl rfl
    · exact Or.inr rfl
  have hroute : ∀ family g route, IpCommand.routeReplace table family
      (if connected then .dev tunName else .prohibit) = .routeReplace .vpn g route →
      Closed route := by
    intro family g route h
    injection h with _ _ h
    rwa [← h]
  refine within_bind keeps_trans within_clearRules fun _ => ?_
  refine within_bind keeps_trans within_clearRules fun _ => ?_
  refine within_bind keeps_trans (within_runIp (hroute .v4)) fun _ => ?_
  refine within_bind keeps_trans (within_runIp (hroute .v6)) fun _ => ?_
  exact within_bind keeps_trans (within_runIp nofun) fun _ => within_runIp nofun

theorem nftConfig_guard {options : Options} {nft : Table}
    (h : nftConfig inet state options = .ok nft) : guardRule ∈ nft.chains .guardEgress := by
  unfold nftConfig at h
  simp only [bind_eq_ok, require_eq_ok] at h
  obtain ⟨-, -, h⟩ := h
  split at h
  · simp only [bind_eq_ok, require_eq_ok, pure_eq_ok] at h
    obtain ⟨-, -, -, -, rfl⟩ := h
    exact List.mem_append_right _ List.mem_cons_self
  · cases h

theorem policyFiles_guard {policy : PolicyFiles}
    (h : policyFiles inet state storage a emergency = .ok policy) :
    guardRule ∈ policy.nft.chains .guardEgress := by
  unfold policyFiles at h
  simp only [bind_eq_ok, require_eq_ok, pure_eq_ok] at h
  obtain ⟨-, -, _, -, _, -, _, -, nft, hnft, _, -, -, -, -, -, rfl⟩ := h
  exact nftConfig_guard hnft

/-- The policy gets as far as its table, and the table is loaded. -/
def Loads (inet : Inet) (state : State) (emergency storage : Bool) (a : Attempt) : Prop :=
  Succeeds (policyFiles inet state storage a emergency) ∧ a.loaded = true

instance : Decidable (Loads inet state emergency storage a) := inferInstanceAs (Decidable (_ ∧ _))

/-- Either nothing has changed, or the new policy is in the kernel. -/
theorem exec_applyPolicy {t : Router} {result : Except Err Unit}
    (h : exec (applyPolicy inet state connected emergency storage a) s = (result, t)) :
    (t = s ∧ (connected = false → ¬ Loads inet state emergency storage a)) ∨
      (Loads inet state emergency storage a ∧ Guarded t ∧ KeepsRoutes s t) := by
  rcases exec_ensure_bind_cases h with ⟨hc, -, rfl⟩ | ⟨-, h1⟩
  · exact Or.inl ⟨rfl, fun hf => absurd (fun ht => by simp [hf] at ht) hc⟩
  rcases exec_ensure_bind_cases h1 with ⟨hc, -, rfl⟩ | ⟨-, h2⟩
  · exact Or.inl ⟨rfl, fun hf => absurd (fun ht => by simp [hf] at ht) hc⟩
  rcases exec_lift_bind_cases h2 with ⟨e, he, -, rfl⟩ | ⟨policy, hp, h3⟩
  · exact Or.inl ⟨rfl, fun _ hl => by simp [Loads, he] at hl⟩
  rcases exec_ensure_bind_cases h3 with ⟨hc, -, rfl⟩ | ⟨hc, h4⟩
  · exact Or.inl ⟨rfl, fun _ hl => hc hl.2⟩
  rw [exec_modify_bind] at h4
  have hrest : Keeps { s with table := some policy.nft } t :=
    (within_bind keeps_trans within_replaceRoutes fun _ => within_ensure keeps_refl).exec h4
  refine Or.inr
    ⟨⟨⟨policy, hp⟩, hc⟩, hrest.2 ⟨policy.nft, rfl, policyFiles_guard hp⟩, fun hs => hrest.1 hs⟩

theorem within_applyPolicy :
    Within Keeps (applyPolicy inet state connected emergency storage a) := by
  intro s
  rcases h : exec (applyPolicy inet state connected emergency storage a) s with ⟨result, t⟩
  rcases exec_applyPolicy h with ⟨rfl, -⟩ | ⟨-, hg, hr⟩
  · exact keeps_refl t
  · exact ⟨hr, fun _ => hg⟩

/-- Whatever follows an emergency policy that loads, the guard is there. -/
theorem guarded_applyPolicy {k : Unit → Command Err Router Unit} (hk : ∀ u, Within Keeps (k u))
    (hl : Loads inet state true storage a) :
    Guarded (exec (applyPolicy inet state false true storage a >>= k) s).2 := by
  rcases h : exec (applyPolicy inet state false true storage a) s with ⟨result, t⟩
  have hg : Guarded t := by
    rcases exec_applyPolicy h with ⟨-, hn⟩ | ⟨-, hg, -⟩
    · exact absurd hl (hn rfl)
    · exact hg
  rw [exec_bind, h]
  cases result with
  | error => exact hg
  | ok u => exact (hk u t).2 hg

theorem within_writeStatus {phase : String} {enforced : Bool} {error : Option Err} :
    Within Keeps (writeStatus state c phase connected enforced error) :=
  within_bind keeps_trans (within_ensure keeps_refl) fun _ _ => ⟨id, id⟩

theorem Loads.writable (h : Loads inet state emergency storage a) : storage = true := by
  obtain ⟨⟨policy, hp⟩, -⟩ := h
  unfold policyFiles at hp
  simp only [bind_eq_ok, require_eq_ok, pure_eq_ok] at hp
  obtain ⟨-, -, _, -, _, -, _, -, _, -, _, -, -, h, -⟩ := hp
  exact h

theorem within_prepare : Within Keeps (prepare env state c) := by
  unfold prepare
  split
  · exact within_throw keeps_refl
  refine within_bind keeps_trans (within_ensure keeps_refl) fun _ => ?_
  split
  · refine within_bind keeps_trans (within_lift keeps_refl) fun _ => ?_
    refine within_bind keeps_trans within_applyPolicy fun _ => ?_
    refine within_bind keeps_trans (within_ensure keeps_refl) fun _ => ?_
    exact within_bind keeps_trans (within_lift keeps_refl) fun _ => within_writeStatus
  · refine within_bind keeps_trans (within_onlyIf keeps_refl within_applyPolicy) fun _ => ?_
    refine within_bind keeps_trans (within_lift keeps_refl) fun _ => ?_
    refine within_bind keeps_trans (within_lift keeps_refl) fun _ => ?_
    exact within_bind keeps_trans (within_ensure keeps_refl) fun _ => within_writeStatus

theorem within_apply : Within Keeps (apply env state c connected) := by
  refine within_bind keeps_trans (within_ensure keeps_refl) fun _ => ?_
  refine within_bind keeps_trans (within_ensure keeps_refl) fun _ => ?_
  refine within_bind keeps_trans within_applyPolicy fun _ => ?_
  refine within_bind keeps_trans (within_onlyIf keeps_refl (within_lift keeps_refl)) fun _ => ?_
  exact within_writeStatus

theorem within_tryIp {command : IpCommand}
    (h : ∀ family route, command = .routeReplace .vpn family route → Closed route) :
    Within Keeps (tryIp a command) := by
  intro s
  unfold tryIp
  rw [exec_modify]
  dsimp only
  split
  · exact keeps_ip h
  · exact keeps_refl s

theorem within_flushRoutes : Within Keeps (flushRoutes a table) := by
  refine within_bind keeps_trans within_clearRules fun _ => ?_
  refine within_bind keeps_trans within_clearRules fun _ => ?_
  exact within_bind keeps_trans (within_tryIp nofun) fun _ => within_tryIp nofun

/-- Taking the policy out opens no route. -/
theorem within_cleanupPolicy : Within KeepsRoutes (cleanupPolicy c) := by
  have hflush : ∀ table, Within KeepsRoutes (flushRoutes c.first table) := fun _ =>
    within_flushRoutes.mono fun _ _ h => h.1
  refine within_bind keepsRoutes_trans (fun s hs => ?_) fun _ => ?_
  · rw [exec_modify]
    dsimp only
    split <;> exact hs
  · exact within_bind keepsRoutes_trans (hflush .vpn) fun _ => hflush .proof

theorem within_writeDown {phase : String} {enforced : Bool} :
    Within Keeps (writeDown state c phase enforced e) := by
  unfold writeDown
  split <;> exact within_writeStatus

/-- The actions that take no policy out. -/
def Loading : Action → Prop
  | .cleanup | .down _ => False
  | _ => True

theorem within_perform {action : Action} (h : Loading action) :
    Within Keeps (perform env state c action) := by
  cases action with
  | prepare => exact within_prepare
  | prepareProof => exact within_replaceRoutes
  | probe => exact within_ensure keeps_refl
  | binary => exact within_bind keeps_trans (within_lift keeps_refl) fun _ => within_pure keeps_refl
  | apply connected => exact within_apply
  | cleanup => exact h.elim
  | down reason => exact h.elim

theorem keeps_routes {x : Command Err Router Unit} (h : Within Keeps x) : Within KeepsRoutes x :=
  h.mono fun _ _ h => h.1

theorem within_down : Within KeepsRoutes (down env state c e) := by
  unfold down
  dsimp only
  generalize (if e ∈ ERRORS then e else Err.tunnelExited) = reason
  split
  · exact keeps_routes (within_bind keeps_trans within_applyPolicy fun _ => within_writeStatus)
  split
  · refine within_bind keepsRoutes_trans (within_get keepsRoutes_refl) fun r => ?_
    refine within_bind keepsRoutes_trans (keeps_routes within_writeStatus) fun _ => ?_
    exact keeps_routes (within_bind keeps_trans within_applyPolicy fun _ => within_writeDown)
  · exact within_bind keepsRoutes_trans within_cleanupPolicy fun _ => keeps_routes within_writeDown

theorem within_rescue : Within Keeps (rescue env state c e) :=
  within_bind keeps_trans (within_onlyIf keeps_refl within_applyPolicy) fun _ => within_writeStatus

/-- A controller call keeps what its action and its catch block keep. -/
theorem controller_related {R : Router → Router → Prop} {action : Action} (hrefl : ∀ s, R s s)
    (htrans : ∀ s t u, R s t → R t u → R s u) (h : Within R (perform env state c action))
    (hr : ∀ e, Within R (rescue env state c e)) : R r (controller env state c action r).2 := by
  unfold controller
  have hp := h r
  rcases hx : exec (perform env state c action) r with ⟨e | u, t⟩
  · rw [hx] at hp
    refine htrans _ _ _ hp ?_
    dsimp only
    split
    · exact hrefl t
    · exact hr _ t
  · rwa [hx] at hp

theorem controller_keeps {action : Action} (h : Loading action) :
    Keeps r (controller env state c action r).2 :=
  controller_related keeps_refl keeps_trans (within_perform h) fun _ => within_rescue

theorem controller_keepsRoutes {action : Action} :
    KeepsRoutes r (controller env state c action r).2 := by
  refine controller_related keepsRoutes_refl keepsRoutes_trans ?_ fun _ =>
    keeps_routes within_rescue
  cases action with
  | cleanup =>
    exact within_bind keepsRoutes_trans within_cleanupPolicy fun _ =>
      keeps_routes within_writeStatus
  | down reason => exact within_down
  | prepare | prepareProof | probe | binary | apply =>
    exact keeps_routes (within_perform trivial)

/-- `down` after anything but Stop ends with the emergency policy in the kernel. -/
theorem controller_down_guarded (hk : state.settings.killSwitch = true ∨ native state = true)
    (hreason : e ≠ .runtimeStopped) (hl : Loads env.inet state true c.storage c.first) :
    Guarded (controller env state c (.down e) r).2 := by
  have hdown : Guarded (exec (down env state c e) r).2 := by
    unfold down
    dsimp only
    generalize hr : (if e ∈ ERRORS then e else Err.tunnelExited) = reason
    have hne : reason ≠ .runtimeStopped := by
      rw [← hr]
      split
      · exact hreason
      · decide
    split
    · exact guarded_applyPolicy (fun _ => within_writeStatus) hl
    · rename_i hn
      have hkill : state.settings.killSwitch = true := by
        rcases hk with hk | hk
        · exact hk
        · exact absurd ⟨hk, hne⟩ hn
      rw [if_pos hkill, exec_get_bind, writeStatus, bind_assoc]
      rw [exec_bind, exec_ensure, if_pos hl.writable]
      exact guarded_applyPolicy (fun _ => within_writeDown) hl
  show Guarded (controller env state c (.down e) r).2
  unfold controller
  have hp : perform env state c (.down e) = down env state c e := rfl
  rw [hp]
  rcases hx : exec (down env state c e) r with ⟨e' | u, t⟩
  · rw [hx] at hdown
    exact (within_rescue t).2 hdown
  · rwa [hx] at hdown

/-! The scripts. -/

/-- A script keeps what its controller calls keep. -/
def ShellKeeps (s t : Shell) : Prop := Keeps s.router t.router

theorem shellKeeps_refl (s : Shell) : ShellKeeps s s := keeps_refl _

theorem shellKeeps_trans (s t u : Shell) (h : ShellKeeps s t) (h' : ShellKeeps t u) :
    ShellKeeps s u := keeps_trans _ _ _ h h'

theorem within_modify_shell {g : Shell → Shell} (h : ∀ s, (g s).router = s.router) :
    Within ShellKeeps (modify g : Script Unit) := by
  intro s
  show Keeps s.router (g s).router
  rw [h]
  exact keeps_refl _

theorem within_stopRuntime {term : Bool} : Within ShellKeeps (stopRuntime term) :=
  within_onlyIf shellKeeps_refl (within_modify_shell fun _ => rfl)

theorem within_exit {α : Type} : Within ShellKeeps (exit : Script α) := within_throw shellKeeps_refl

theorem within_setReason : Within ShellKeeps (setReason e) := within_modify_shell fun _ => rfl

theorem within_exitWith : Within ShellKeeps (exitWith e) :=
  within_bind shellKeeps_trans within_setReason fun _ => within_exit

theorem within_exitUnless {p : Bool} : Within ShellKeeps (onlyIf p (exitWith e)) :=
  within_onlyIf shellKeeps_refl within_exitWith

theorem within_orExit {p : Bool} : Within ShellKeeps (orExit p) :=
  within_onlyIf shellKeeps_refl within_exit

theorem within_checkStopping : Within ShellKeeps checkStopping :=
  within_bind shellKeeps_trans (within_get shellKeeps_refl) fun _ =>
    within_onlyIf shellKeeps_refl within_exit

theorem within_control {action : Action} (h : Loading action) :
    Within ShellKeeps (control env state f action) := by
  intro s
  unfold control
  rw [exec_get_bind]
  have hcall : ShellKeeps s { s with router := (controller env state f.call action s.router).2 } :=
    controller_keeps h
  refine related_bind shellKeeps_trans hcall fun _ => ?_
  exact within_bind shellKeeps_trans within_stopRuntime fun _ => within_pure shellKeeps_refl

theorem within_checkAlive {round : Round} : Within ShellKeeps (checkAlive round) :=
  within_exitUnless

theorem within_awaitDevice {device : ℕ → Round} {attempt left : ℕ} :
    Within ShellKeeps (awaitDevice device attempt left) := by
  induction left generalizing attempt with
  | zero => exact within_pure shellKeeps_refl
  | succ left ih =>
    refine within_bind shellKeeps_trans within_checkStopping fun _ => ?_
    refine within_bind shellKeeps_trans within_checkAlive fun _ => ?_
    split
    · exact within_pure shellKeeps_refl
    · exact within_bind shellKeeps_trans within_stopRuntime fun _ => ih

theorem within_awaitProbe {probes : ℕ → Round} {attempt left : ℕ} :
    Within ShellKeeps (awaitProbe env state probes attempt left) := by
  induction left generalizing attempt with
  | zero => exact within_pure shellKeeps_refl
  | succ left ih =>
    refine within_bind shellKeeps_trans within_checkStopping fun _ => ?_
    refine within_bind shellKeeps_trans within_checkAlive fun _ => ?_
    refine within_bind shellKeeps_trans (within_control trivial) fun probed => ?_
    split
    · exact within_pure shellKeeps_refl
    split
    · exact within_pure shellKeeps_refl
    · exact within_bind shellKeeps_trans within_stopRuntime fun _ => ih

theorem within_startCore : Within ShellKeeps (startCore env state f) := by
  refine within_bind shellKeeps_trans (within_control trivial) fun _ => ?_
  refine within_bind shellKeeps_trans within_orExit fun _ => ?_
  split
  · exact within_orExit
  · exact within_exit

theorem within_proveCore : Within ShellKeeps (proveCore env state f) :=
  within_bind shellKeeps_trans (within_control trivial) fun _ => within_orExit

theorem within_startBridge : Within ShellKeeps (startBridge o) :=
  within_bind shellKeeps_trans within_stopRuntime fun _ => within_exitUnless

theorem within_tunnelScript : Within ShellKeeps (tunnelScript env state o) := by
  have hif : ∀ {p : Bool} {x : Script Unit}, Within ShellKeeps x → Within ShellKeeps (onlyIf p x) :=
    within_onlyIf shellKeeps_refl
  refine within_bind shellKeeps_trans (within_control trivial) fun _ => ?_
  refine within_bind shellKeeps_trans within_orExit fun _ => ?_
  refine within_bind shellKeeps_trans within_checkStopping fun _ => ?_
  refine within_bind shellKeeps_trans (hif within_startCore) fun _ => ?_
  refine within_bind shellKeeps_trans within_awaitDevice fun _ => ?_
  refine within_bind shellKeeps_trans within_exitUnless fun _ => ?_
  refine within_bind shellKeeps_trans (hif within_proveCore) fun _ => ?_
  refine within_bind shellKeeps_trans within_awaitProbe fun _ => ?_
  refine within_bind shellKeeps_trans within_exitUnless fun _ => ?_
  refine within_bind shellKeeps_trans (within_control trivial) fun _ => ?_
  refine within_bind shellKeeps_trans within_exitUnless fun _ => ?_
  refine within_bind shellKeeps_trans (hif within_startBridge) fun _ => ?_
  refine within_bind shellKeeps_trans within_stopRuntime fun _ => ?_
  exact within_bind shellKeeps_trans within_checkStopping fun _ => within_setReason

theorem within_blockScript : Within ShellKeeps (blockScript env state o) := by
  refine within_bind shellKeeps_trans (within_control trivial) fun _ => ?_
  exact within_bind shellKeeps_trans within_orExit fun _ => within_stopRuntime

/-- The exit trap leaves the guard loaded, unless a signal ended the script. -/
theorem underTrap_guarded {script : Script Unit}
    (hk : state.settings.killSwitch = true ∨ native state = true)
    (hl : Loads env.inet state true f.call.storage f.call.first)
    (hend : (underTrap env state f script r).1 = false) :
    Guarded (underTrap env state f script r).2 :=
  controller_down_guarded hk (of_decide_eq_false hend) hl

theorem underTrap_keepsRoutes {script : Script Unit} (h : Within ShellKeeps script) :
    KeepsRoutes r (underTrap env state f script r).2 :=
  keepsRoutes_trans _ _ _ (h ⟨r, .tunnelStartFailed, false⟩).1 controller_keepsRoutes

theorem supervise_keepsRoutes : KeepsRoutes r (supervise env state o r).2 := by
  unfold supervise
  split
  · exact controller_keepsRoutes
  · exact underTrap_keepsRoutes within_blockScript
  · exact underTrap_keepsRoutes within_tunnelScript

theorem run_keepsRoutes {x : Execution} : KeepsRoutes r (x.run env state r).2 := by
  cases x with
  | respawn o => exact supervise_keepsRoutes
  | start o =>
    show KeepsRoutes r (startService env state o r).2
    unfold startService
    split
    · exact keepsRoutes_refl r
    · exact controller_keepsRoutes
    · exact controller_keepsRoutes
    · exact keepsRoutes_refl r
    · exact controller_keepsRoutes
    · exact supervise_keepsRoutes

/-- However often the router has been started, table 201 is closed. -/
theorem Reached.routesClosed (h : Reached env r) : RoutesClosed r := by
  obtain ⟨xs, hrun⟩ := h
  refine hrun.invariant (fun s x t hs hstep => ?_) routesClosed_boot
  rw [← hstep]
  exact run_keepsRoutes hs

theorem mode_ne_off (hk : state.settings.killSwitch = true ∨ native state = true) :
    mode state ≠ .off := by
  unfold mode
  split
  · nofun
  · rename_i hs
    rcases hk with hk | hk
    · rw [if_pos hk]
      nofun
    · rw [not_not] at hs
      rw [native, hs] at hk
      cases hk

theorem supervise_guarded (hk : state.settings.killSwitch = true ∨ native state = true)
    (hl : Loads env.inet state true o.down.call.storage o.down.call.first)
    (hend : (supervise env state o r).1 = false) : Guarded (supervise env state o r).2 := by
  unfold supervise at hend ⊢
  split at hend
  · rename_i hm
    exact absurd hm (mode_ne_off hk)
  · exact underTrap_guarded hk hl hend
  · exact underTrap_guarded hk hl hend

def SameTable (s t : Router) : Prop := t.table = s.table

theorem sameTable_refl (s : Router) : SameTable s s := rfl

theorem sameTable_trans (s t u : Router) (h : SameTable s t) (h' : SameTable t u) :
    SameTable s u := h'.trans h

theorem SameTable.guarded (h : SameTable s t) : Guarded t ↔ Guarded s := by
  unfold Guarded
  rw [show t.table = s.table from h]

theorem writeStatus_sameTable {phase : String} {enforced : Bool} {error : Option Err} :
    Within SameTable (writeStatus state c phase connected enforced error) :=
  within_bind sameTable_trans (within_ensure sameTable_refl) fun _ _ => rfl

/-- Outside the attempt itself, a blocked policy leaves the table. -/
theorem exec_block {result : Except Err Unit}
    (h : exec (apply env state c false) r = (result, t)) :
    (Loads env.inet state false c.storage c.first ∧ Guarded t) ∨
      (¬ Loads env.inet state false c.storage c.first ∧ SameTable r t) := by
  rcases exec_ensure_bind_cases h with ⟨hc, -, -⟩ | ⟨-, h1⟩
  · exact absurd nofun hc
  rcases exec_ensure_bind_cases h1 with ⟨hc, -, -⟩ | ⟨-, h2⟩
  · exact absurd nofun hc
  have hrest : Within SameTable (onlyIf (false && native state) (liftM c.fence) >>=
      fun _ => writeStatus state c "blocked" false true none) :=
    within_bind sameTable_trans (within_pure sameTable_refl) fun _ => writeStatus_sameTable
  rcases exec_bind_cases h2 with ⟨e, hpolicy, -⟩ | ⟨_, u, hpolicy, h3⟩
  · rcases exec_applyPolicy hpolicy with ⟨rfl, hl⟩ | ⟨hl, hg, -⟩
    · exact Or.inr ⟨hl rfl, rfl⟩
    · exact Or.inl ⟨hl, hg⟩
  · have hu : SameTable u t := hrest.exec h3
    rcases exec_applyPolicy hpolicy with ⟨rfl, hl⟩ | ⟨hl, hg, -⟩
    · exact Or.inr ⟨hl rfl, hu⟩
    · exact Or.inl ⟨hl, hu.guarded.2 hg⟩

/-- A blocked policy that no core server stands behind has one attempt only. -/
theorem controller_block_guarded (hn : native state = false) :
    Guarded (controller env state c (.apply false) r).2 ↔
      Guarded r ∨ Loads env.inet state false c.storage c.first := by
  have hrescue : ∀ e, Within SameTable (rescue env state c e) := by
    intro e
    rw [rescue, hn]
    exact within_bind sameTable_trans (within_pure sameTable_refl) fun _ => writeStatus_sameTable
  rcases hx : exec (apply env state c false) r with ⟨result, t⟩
  have ht : SameTable t (controller env state c (.apply false) r).2 := by
    unfold controller
    rw [show perform env state c (.apply false) = apply env state c false from rfl, hx]
    cases result with
    | error e => exact hrescue _ t
    | ok u => rfl
  rw [ht.guarded]
  rcases exec_block hx with ⟨hl, hg⟩ | ⟨hl, hs⟩
  · exact ⟨fun _ => Or.inr hl, fun _ => hg⟩
  · rw [hs.guarded]
    exact ⟨Or.inl, fun h => h.resolve_right hl⟩

theorem activeServer_of_stopped {recovered : Bool} (h : recovery state recovered = .stopped) :
    activeServer state = none := by
  unfold recovery at h
  split at h
  · cases h
  split at h
  · rename_i ha
    rw [activeServer, ha]
  · cases h

/-- Where an execution is under the exit trap of a supervisor, the emergency policy of its `down`
passes its checks and loads. -/
def Granted (env : Env) (state : State) (x : Execution) : Prop :=
  match x with
  | .respawn _ => Loads env.inet state true x.down.storage x.down.first
  | .start o => recovery state o.recovered = .ready →
    Loads env.inet state true x.down.storage x.down.first

/-- The executions that end protected: those under a supervisor, those that find the guard
loaded, and those where the backup journal stays locked and the whole policy loads at once. -/
def Covered (env : Env) (state : State) (r : Router) : Execution → Prop
  | .respawn _ => True
  | .start o => Guarded r ∨ recovery state o.recovered = .ready ∨
    (recovery state o.recovered = .stopped ∧
      Loads env.inet state false o.block.storage o.block.first)

theorem startService_guarded {o : Start}
    (hk : state.settings.killSwitch = true ∨ native state = true)
    (hl : Granted env state (.start o)) (hend : (startService env state o r).1 = false) :
    Guarded (startService env state o r).2 ↔ Covered env state r (.start o) := by
  have hoff := mode_ne_off hk
  unfold startService at hend ⊢
  simp only [Granted, Covered] at hl ⊢
  cases hrec : recovery state o.recovered with
  | failed => simp only [reduceCtorEq, false_and, or_false]
  | stopped =>
    have hnone := activeServer_of_stopped hrec
    have hn : native state = false := by rw [native, hnone]; rfl
    have hkill : state.settings.killSwitch = true := hk.resolve_right (by simp [hn])
    have hm : mode state = .block := by rw [mode, hnone, if_neg (by simp), if_pos hkill]
    simp only [hm, reduceCtorEq, false_or, true_and]
    exact controller_block_guarded hn
  | ready =>
    simp only [hrec] at hend
    simp only [true_or, or_true, iff_true]
    cases hm : mode state with
    | off => exact absurd hm hoff
    | block | tunnel => exact supervise_guarded hk (hl hrec) hend

/-- **A start ends protected exactly when it is covered.** -/
theorem protected_iff {x : Execution} (hr : Reached env r)
    (hk : state.settings.killSwitch = true ∨ native state = true) (hl : Granted env state x)
    (hend : (x.run env state r).1 = false) :
    Protected (x.run env state r).2 ↔ Covered env state r x := by
  have hroutes : RoutesClosed (x.run env state r).2 := run_keepsRoutes hr.routesClosed
  have hguard : Guarded (x.run env state r).2 ↔ Covered env state r x := by
    cases x with
    | start o => exact startService_guarded hk hl hend
    | respawn o => exact ⟨fun _ => trivial, fun _ => supervise_guarded hk hl hend⟩
  exact ⟨fun h => hguard.1 h.guarded, fun h => ⟨hguard.2 h, hroutes⟩⟩

/-! A router with a site rule, whose dnsmasq was built without nftset. -/

def blockedState : State :=
  { Model.defaults with
    settings := { localRules := true, killSwitch := true }
    sites := [⟨"site-000000000001".toList, "example.com".toList, .vpn⟩] }

def plainAttempt : Attempt where
  tun := false
  rpFilter := false
  nftset := false
  country _ := .error .countryFetchFailed
  interfaces := .ok ["br-lan".toList]
  dnsUid := .ok 453
  dnsViaTunnel := true
  checked := true
  loaded := true
  ip _ := true
  dnsHelper := true

def plainCall : Call where
  storage := true
  first := plainAttempt
  check := plainAttempt
  rescue := plainAttempt
  installed := true
  coreReady := .ok ()
  plan := .error .resolveFailed
  proof := false
  fence := .ok ()
  binary := .error .storageError
  probe := false
  deleted := true

def plainForeground : Foreground := ⟨plainCall, false⟩

def plainRound : Round := ⟨false, false, plainForeground, false⟩

def plainSupervision : Supervision where
  cleanup := plainForeground
  block := plainForeground
  prepare := plainForeground
  binary := plainForeground
  device _ := plainRound
  proof := plainForeground
  probes _ := plainRound
  connect := plainForeground
  bridge := false
  bridgeTerm := false
  waitTerm := false
  down := plainForeground

def plainStart : Start := ⟨false, plainCall, plainCall, plainSupervision⟩

theorem reached_boot : Reached env boot := ⟨[], .refl _⟩

theorem blockedState_valid :
    Model.validateState Rpc.plainEnv blockedState.raw = .ok blockedState := by
  decide

theorem plain_loads : Loads decimalInet blockedState true true plainAttempt := by
  decide

/-- The journal is locked and dnsmasq has no nftset: the start ends without a table, although
every emergency policy would load. -/
theorem locked_start_open :
    Model.validateState Rpc.plainEnv blockedState.raw = .ok blockedState ∧
    blockedState.settings.killSwitch = true ∧ Reached Rpc.plainEnv boot ∧
    Loads Rpc.plainEnv.inet blockedState true plainCall.storage plainCall.rescue ∧
    Granted Rpc.plainEnv blockedState (.start plainStart) ∧
    ((Execution.start plainStart).run Rpc.plainEnv blockedState boot).1 = false ∧
    ¬ Protected ((Execution.start plainStart).run Rpc.plainEnv blockedState boot).2 := by
  refine ⟨blockedState_valid, rfl, reached_boot, plain_loads, fun _ => plain_loads,
    by decide, ?_⟩
  rintro ⟨⟨table, h, -⟩, -⟩
  have hnone : ((Execution.start plainStart).run Rpc.plainEnv blockedState
      boot).2.table.isNone = true := by decide
  simp [h] at hnone

/-- Under the supervisor the same failures end protected. -/
theorem plain_supervisor_protected :
    Protected ((Execution.respawn plainSupervision).run Rpc.plainEnv blockedState boot).2 := by
  have hgranted : Granted Rpc.plainEnv blockedState (.respawn plainSupervision) := plain_loads
  have hend : ((Execution.respawn plainSupervision).run Rpc.plainEnv blockedState boot).1 =
      false := by decide
  exact (protected_iff reached_boot (Or.inl rfl) hgranted hend).2 trivial

end Foxhole.Supervisor
