import Foxhole.Lib.Trace
import Foxhole.Runtime

/-! The shell scripts around the controller: foxhole-supervisor, which keeps one tunnel running,
and the init script, which starts it or applies a policy without it. -/
namespace Foxhole.Supervisor
open Text Routing Command Foxhole.Runtime

/-- The supervisor between two commands. -/
structure Shell where
  router : Router
  reason : Err
  stopping : Bool

/-- A script exits by throwing, whatever its exit status. -/
abbrev Script := Command Unit Shell

def exit {α : Type} : Script α := throw ()

/-- The traps for TERM and INT run once the command at work is done. -/
def stopRuntime (term : Bool) : Script Unit :=
  onlyIf term (modify fun s => { s with stopping := true, reason := .runtimeStopped })

def setReason (reason : Err) : Script Unit := modify fun s => { s with reason := reason }

/-- Exit when a signal has been taken. -/
def checkStopping : Script Unit := do
  let s ← get
  onlyIf s.stopping exit

/-- Exit with a reason. -/
def exitWith (reason : Err) : Script Unit := do
  setReason reason
  exit

/-- A call of the controller in the foreground, and whether a signal came meanwhile. -/
structure Foreground where
  call : Call
  term : Bool

def control (env : Env) (state : State) (f : Foreground) (action : Action) : Script Bool := do
  let s ← get
  let result := controller env state f.call action s.router
  modify fun s => { s with router := result.2 }
  stopRuntime f.term
  return result.1

/-- A round of a waiting loop: whether the engine is alive and what was waited for is there, and
whether a signal came in the second of sleep. -/
structure Round where
  alive : Bool
  ready : Bool
  probe : Foreground
  term : Bool

/-- What a supervisor meets. -/
structure Supervision where
  cleanup : Foreground
  block : Foreground
  prepare : Foreground
  binary : Foreground
  /-- rounds of waiting for the TUN device, and for core for its owner -/
  device : ℕ → Round
  proof : Foreground
  probes : ℕ → Round
  connect : Foreground
  /-- the core bridge is alive after a second -/
  bridge : Bool
  bridgeTerm : Bool
  /-- the wait for the engine ends with a signal -/
  waitTerm : Bool
  down : Foreground

/-- `kill -0 "$child"` -/
def checkAlive (round : Round) : Script Unit :=
  onlyIf (!round.alive) (exitWith .tunnelStartFailed)

/-- `attempt` counts the rounds done, `left` those to come. -/
def awaitDevice (device : ℕ → Round) : (attempt left : ℕ) → Script Bool
  | _, 0 => pure false
  | attempt, left + 1 => do
    checkStopping
    checkAlive (device attempt)
    if (device attempt).ready then return true
    else do
      stopRuntime (device attempt).term
      awaitDevice device (attempt + 1) left

/-- A core is probed once, Hysteria up to ten times. -/
def awaitProbe (env : Env) (state : State) (probes : ℕ → Round) :
    (attempt left : ℕ) → Script Bool
  | _, 0 => pure false
  | attempt, left + 1 => do
    checkStopping
    checkAlive (probes attempt)
    let probed ← control env state (probes attempt).probe .probe
    if probed then return true
    else if native state then return false
    else do
      stopRuntime (probes attempt).term
      awaitProbe env state probes (attempt + 1) left

/-- `command || exit 1` -/
def orExit (success : Bool) : Script Unit := onlyIf (!success) exit

/-- The paths a core binary may have. -/
def corePath (path : Text) : Bool :=
  path = "/usr/bin/foxcore-cli".toList ||
    wildcard "/usr/libexec/foxhole/engines/*/foxcore-cli".toList path

def startCore (env : Env) (state : State) (f : Foreground) : Script Unit := do
  let found ← control env state f .binary
  orExit found
  match f.call.binary with
  | .ok path => orExit (corePath path)
  | .error _ => exit

/-- The proof of a core tunnel has routes of its own. -/
def proveCore (env : Env) (state : State) (f : Foreground) : Script Unit := do
  let proved ← control env state f .prepareProof
  orExit proved

def startBridge (o : Supervision) : Script Unit := do
  stopRuntime o.bridgeTerm
  onlyIf (!o.bridge) (exitWith .tunnelStartFailed)

/-- From the engine's start to its end. -/
def tunnelScript (env : Env) (state : State) (o : Supervision) : Script Unit := do
  let prepared ← control env state o.prepare .prepare
  orExit prepared
  checkStopping
  onlyIf (native state) (startCore env state o.binary)
  let ready ← awaitDevice o.device 0 20
  onlyIf (!ready) (exitWith .tunnelStartFailed)
  onlyIf (native state) (proveCore env state o.proof)
  let ready ← awaitProbe env state o.probes 0 10
  onlyIf (!ready) (exitWith .tunnelStartFailed)
  let connected ← control env state o.connect (.apply true)
  onlyIf (!connected) (exitWith .policyApplyFailed)
  onlyIf (native state) (startBridge o)
  stopRuntime o.waitTerm
  checkStopping
  setReason .tunnelExited

/-- A blocked router sleeps until a signal comes. -/
def blockScript (env : Env) (state : State) (o : Supervision) : Script Unit := do
  let blocked ← control env state o.block (.apply false)
  orExit blocked
  stopRuntime true

/-- Run a script under the exit trap `finish_runtime`. The first part says that a signal ended
it. -/
def underTrap (env : Env) (state : State) (down : Foreground) (script : Script Unit) (r : Router) :
    Bool × Router :=
  let s := (exec script ⟨r, .tunnelStartFailed, false⟩).2
  (s.reason = .runtimeStopped, (controller env state down.call (.down s.reason) s.router).2)

/-- foxhole-supervisor: whether it ended through Stop, and the router it leaves. -/
def supervise (env : Env) (state : State) (o : Supervision) (r : Router) : Bool × Router :=
  match mode state with
  | .off => (false, (controller env state o.cleanup.call .cleanup r).2)
  | .block => underTrap env state o.down (blockScript env state o) r
  | .tunnel => underTrap env state o.down (tunnelScript env state o) r

/-- The exit status of foxhole-backup-recover: 0, 10 or another one. -/
inductive Recovery where
  | ready | stopped | failed
deriving DecidableEq

/-- A recovery that fails while no server is active only forbids a tunnel. -/
def recovery (state : State) (recovered : Bool) : Recovery :=
  if recovered then .ready else if state.activeServerId = none then .stopped else .failed

/-- What the init script meets, and the supervisor it may start. -/
structure Start where
  recovered : Bool
  cleanup : Call
  block : Call
  run : Supervision

/-- `start_service`, with the supervisor that procd runs for it. -/
def startService (env : Env) (state : State) (o : Start) (r : Router) : Bool × Router :=
  match recovery state o.recovered, mode state with
  | .failed, _ => (false, r)
  | .stopped, .off => (false, (controller env state o.cleanup .cleanup r).2)
  | .stopped, .block => (false, (controller env state o.block (.apply false) r).2)
  | .stopped, .tunnel => (false, r)
  | .ready, .off => (false, (controller env state o.cleanup .cleanup r).2)
  | .ready, _ => supervise env state o.run r

/-- A start by the init script, or of the supervisor alone when procd runs it again. -/
inductive Execution where
  | start (o : Start)
  | respawn (o : Supervision)

def Execution.run (env : Env) (state : State) : Execution → Router → Bool × Router
  | .start o => startService env state o
  | .respawn o => supervise env state o

/-- The controller call under the exit trap of the supervisor. -/
def Execution.down : Execution → Call
  | .start o => o.run.down.call
  | .respawn o => o.down.call

/-- One execution after another, each with the state it finds. -/
def Step (env : Env) (r : Router) (a : State × Execution) (r' : Router) : Prop :=
  (a.2.run env a.1 r).2 = r'

/-- The routers that executions leave after a restart of the machine. -/
def Reached (env : Env) (r : Router) : Prop := ∃ xs, Trace.Run (Step env) boot xs r

end Foxhole.Supervisor
