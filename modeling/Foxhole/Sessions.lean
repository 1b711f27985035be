import Foxhole.Lib.Command
import Foxhole.PinPolicy
import Foxhole.Rpc

/-! The session table of the RPC process, and the calls that open and close sessions. -/
namespace Foxhole.Sessions
open Check Text Command

/-- The acceptance of the licence, in auth.json and in the arguments of a PIN call. -/
structure License where
  licenseAccepted : Field Bool := .missing
  licenseVersion : Field ℤ := .missing
deriving DecidableEq

def currentLicenseVersion : ℤ := 1

def License.accepted (license : License) : Bool :=
  license.licenseAccepted = .value true && license.licenseVersion = .value currentLicenseVersion

/-- auth.json -/
structure Auth where
  salt : Text
  hash : Text
  changed : Bool
  license : License := {}
  resetPending : Bool := false
  bootstrapConsumed : Field Bool := .missing
  bootstrapExpiresUptimeMs : Field ℤ := .missing
  bootstrapBootId : Field Text := .missing
deriving DecidableEq

/-- One entry of the table `sessions`. -/
structure Item where
  user : Text
  expires : ℤ
  setup : Bool
  pairing : Option Pairing.Session := none
  reset : Bool := false
deriving DecidableEq

abbrev Table := List (Text × Item)

def Table.find (sessions : Table) (token : Text) : Option Item :=
  (List.find? (fun entry => entry.1 = token) sessions).map Prod.snd

def Table.erase (sessions : Table) (token : Text) : Table :=
  List.filter (fun entry => entry.1 ≠ token) sessions

def Table.put (sessions : Table) (token : Text) (item : Item) : Table :=
  sessions.erase token ++ [(token, item)]

structure Failures where
  count : ℕ := 0
  since : ℤ := 0
deriving DecidableEq

/-- The files the session calls read and write, and the variables of the process. -/
structure World where
  disk : Disk
  auth : Field Auth := .missing
  license : Field Bool := .missing
  attempts : Field PinPolicy.Attempts := .missing
  sessions : Table := []
  failures : Failures := {}
deriving DecidableEq

inductive File where
  | state | pairs | mobile | auth | base | attempts
deriving DecidableEq

/-- What a call reads outside the world, and how its effects end. -/
structure Outside extends Foxhole.Outside where
  /-- `user_of(request)` -/
  user : Text
  /-- `time()` -/
  now : ℤ
  stamp : PinPolicy.Stamp
  /-- `random_hex(32)` of a new token -/
  token : Hex 64
  /-- `random_hex(16)` of a new PIN -/
  salt : Hex 32
  /-- whether the lock is granted -/
  lock : Bool
  /-- `backup_service.guard()` -/
  guard : Except Err Unit
  /-- `revoke_handoff` -/
  handoff : Except Err Unit
  /-- whether a write of the file succeeds; `store.write` renames last, so one that fails
  leaves the old file -/
  stores : File → Bool
  /-- whether the two init scripts stop -/
  stops : Bool
  /-- whether `setup.reset` reads back what it has written -/
  readsBack : Bool
  /-- whether the session service is there -/
  ubus : Bool

abbrev Call (α : Type) := Command Err World α

def tokenTtl : ℤ := 1800
def failureWindow : ℤ := 60
def failureLimit : ℕ := 8

/-- `^(p1\.)?[a-f0-9]{64}$` -/
def tokenShape : Regex Char := .seq (.opt (.lit "p1.".toList)) (hexOf 64)

/-- `^[0-9]{6}$` -/
def pinShape : Regex Char := .rep 6 (.cls isDigit)

def locked {α : Type} (out : Outside) (call : Call α) : Call α := do
  ensure (out.lock = true) .storageError
  call

/-- `write_json` or `unlink` of one file. -/
def store (out : Outside) (file : File) (write : World → World) : Call Unit := do
  ensure (out.stores file = true) .storageError
  modify write

def setSessions (sessions : Table) (world : World) : World := { world with sessions }

def setPairs (pairs : Pairing.Record) (world : World) : World :=
  { world with disk := { world.disk with pairs } }

def setAuth (auth : Auth) (world : World) : World := { world with auth := .value auth }

def setAttempts (attempts : PinPolicy.Attempts) (world : World) : World :=
  { world with attempts := .value attempts }

def validAuth (auth : Auth) : Bool := (hexOf 32).accepts auth.salt && (hexOf 64).accepts auth.hash

/-- `auth_record(true)` -/
def readAuth (world : World) : Except Err (Option Auth) :=
  match world.auth with
  | .missing => .ok none
  | .invalid => .error .storageError
  | .value auth => if validAuth auth then .ok (some auth) else .error .storageError

/-- `auth_record()` -/
def authRecord : Call Auth := do
  match ← liftM (readAuth (← get)) with
  | none => throw .pinSetupRequired
  | some auth => return auth

def pinHash (env : Env) (salt pin : Text) : Text := env.sha256 (salt ++ [':'] ++ pin)

def bootstrapValid (auth : Auth) (stamp : PinPolicy.Stamp) : Bool :=
  auth.bootstrapConsumed = .value false && auth.bootstrapBootId = .value stamp.boot &&
    auth.bootstrapExpiresUptimeMs.value?.any fun expires => stamp.now ≤ expires

def pinValid (env : Env) (auth : Auth) (stamp : PinPolicy.Stamp) (pin : Field Text) : Bool :=
  match pin with
  | .value pin =>
    pinShape.accepts pin && (auth.changed || bootstrapValid auth stamp) &&
      pinHash env auth.salt pin = auth.hash
  | _ => false

/-- What `check_pin` does about a wrong PIN. -/
def refusePin (out : Outside) (record : PinPolicy.Attempts) : Call Unit := do
  let record ← liftM (PinPolicy.failed record out.stamp)
  store out .attempts (setAttempts record)
  throw (if PinPolicy.remaining record out.stamp.now ≠ 0 then .pinCooldown else .invalidPin)

/-- `pin_policy.reset()`, and how `check_pin` ends after the right PIN. -/
def resetAttempts (out : Outside) : Call Unit := do
  let record ← liftM (PinPolicy.initial out.stamp)
  store out .attempts (setAttempts record)

def checkPin (env : Env) (out : Outside) (pin : Field Text) : Call Unit := do
  let auth ← authRecord
  let record ← liftM (PinPolicy.checked (← get).attempts out.stamp)
  ensure (PinPolicy.remaining record out.stamp.now = 0) .pinCooldown
  if pinValid env auth out.stamp pin then resetAttempts out else refusePin out record

/-- The token `new_token` gives out. -/
def tokenText (out : Outside) (paired : Option Pairing.Session) : Text :=
  if paired.isSome then "p1.".toList ++ out.token else out.token

/-- The table without the sessions that have expired. -/
def Table.current (sessions : Table) (now : ℤ) : Table :=
  List.filter (fun entry => now ≤ entry.2.expires) sessions

def newToken (out : Outside) (paired : Option Pairing.Session) : Call Text := do
  modify fun world => setSessions (world.sessions.current out.now) world
  let world ← get
  ensure (world.sessions.length < 64) .locked
  let auth ← authRecord
  let token := tokenText out paired
  modify fun world => setSessions (world.sessions.put token {
    user := out.user, expires := out.now + tokenTtl, setup := !auth.changed,
    pairing := paired }) world
  return token

/-- The pairing of a session must still be in the record; else the session is dropped. -/
def checkPairing (token : Text) (item : Item) : Call Unit := do
  let world ← get
  if item.pairing.all (Pairing.sessionCurrent world.disk.pairs) then pure ()
  else do
    modify fun world => setSessions (world.sessions.erase token) world
    throw .unauthorized

/-- Using a session puts off its end, but for that of a reset. -/
def extend (out : Outside) (token : Text) (item : Item) : Call Unit := do
  if item.reset then pure ()
  else modify fun world =>
    setSessions (world.sessions.put token { item with expires := out.now + tokenTtl }) world

/-- `session` on a token that the table knows. -/
def sessionOf (out : Outside) (allowSetup : Bool) (token : Text) (item : Item) : Call Text := do
  ensure (item.user = out.user) .unauthorized
  if item.expires < out.now then do
    modify fun world => setSessions (world.sessions.erase token) world
    throw .unauthorized
  else do
    ensure (item.setup = false ∨ allowSetup = true) .pinRequired
    checkPairing token item
    extend out token item
    return token

def session (out : Outside) (token : Field Text) (allowSetup : Bool) : Call Text := do
  match token with
  | .value token => do
    ensure (tokenShape.accepts token = true) .unauthorized
    let world ← get
    match world.sessions.find token with
    | none => throw .unauthorized
    | some item => sessionOf out allowSetup token item
  | _ => throw .unauthorized

/-- `sessions[sid].pairing` -/
def pairingOf (world : World) (sid : Text) : Option Pairing.Session :=
  (world.sessions.find sid).bind Item.pairing

/-- `session(request)` of a call that phones may not make. -/
def ownerSession (out : Outside) (token : Field Text) (allowSetup : Bool) : Call Text := do
  let sid ← session out token allowSetup
  let world ← get
  ensure (pairingOf world sid = none) .unauthorized
  return sid

def licenseRecord (world : World) : Except Err Bool :=
  match world.license with
  | .missing => .ok false
  | .invalid => .error .storageError
  | .value accepted => .ok accepted

/-- `license_required`; the licence file is read last. -/
def licenseRequired (world : World) (auth : Option Auth) : Except Err Bool :=
  if auth.any (fun auth => auth.changed || auth.license.accepted) then .ok false
  else Bool.not <$> licenseRecord world

def licenseChoice (world : World) (auth : Option Auth) (acceptance : License) :
    Except Err Bool := do
  let recorded ← licenseRecord world
  let required ← licenseRequired world auth
  require (required = false ∨ acceptance.accepted = true) .licenseRequired
  return recorded || acceptance.accepted || auth.any (·.license.accepted)

/-- The record of a new PIN. -/
def newAuth (env : Env) (out : Outside) (pin : Text) (accepted : Bool) : Auth where
  salt := out.salt
  hash := pinHash env out.salt pin
  changed := true
  license := if accepted then ⟨.value true, .value currentLicenseVersion⟩ else {}

/-- What `store_pin` computes before it writes. -/
def preparePin (env : Env) (out : Outside) (world : World) (pin : Field Text)
    (acceptance : License) : Except Err Auth :=
  match pin with
  | .value pin => do
    require (pinShape.accepts pin = true) .pinMismatch
    let previous ← readAuth world
    let accepted ← licenseChoice world previous acceptance
    return newAuth env out pin accepted
  | _ => throw .pinMismatch

/-- Up to its first write to pairing.json or auth.json. -/
def beginPin (env : Env) (out : Outside) (pin : Field Text) (acceptance : License) : Call Auth := do
  let world ← get
  let auth ← liftM (preparePin env out world pin acceptance)
  resetAttempts out
  liftM out.handoff
  return auth

def storePin (env : Env) (out : Outside) (pin : Field Text) (acceptance : License) : Call Unit := do
  let auth ← beginPin env out pin acceptance
  store out .pairs (setPairs Pairing.defaults)
  store out .auth (setAuth auth)
  modify (setSessions [])

inductive Reply where
  | unlocked (token : Text) (state : State) (pinChangeRequired licenseRequired : Bool)
  | paired (token : Text) (state : State)
  | token (token : Text)
  | reset (revision : ℕ) (token : Text)
  | created (id : Text)
  | done
deriving DecidableEq

def validSid (sid : Field Text) : Bool :=
  sid.value?.any fun sid => (hexOf 32).accepts sid && sid ≠ List.replicate 32 '0'

def adminPin (env : Env) (out : Outside) (sid : Field Text) (access : Bool) (pin : Field Text)
    (acceptance : License) : Call Reply := do
  ensure (validSid sid = true) .unauthorized
  ensure (out.ubus = true) .unavailable
  ensure (access = true) .unauthorized
  locked out do
    storePin env out pin acceptance
    return .done

/-- `pin.change` is for the owner's session while the router is set up. -/
def settingUp (sid : Text) : Call Unit := do
  let world ← get
  ensure ((world.sessions.find sid).any (fun item => item.setup && !item.reset) = true)
    .luciRequired
  let auth ← authRecord
  ensure (auth.changed = false ∧ auth.resetPending = false) .luciRequired

def changePin (env : Env) (out : Outside) (token pin : Field Text) (acceptance : License) :
    Call Reply := do
  let sid ← ownerSession out token true
  settingUp sid
  ensure (pin.value?.any pinShape.accepts = true) .pinMismatch
  locked out do
    let current ← session out token true
    settingUp current
    storePin env out pin acceptance
    let token ← newToken out none
    return .token token

/-- `state_record()`, as the calls that open a session return it. -/
def stateRecord (env : Env) (out : Outside) : Call State := do
  let world ← get
  liftM (Rpc.stateRecord env out.toOutside world.disk)

/-- A bootstrap PIN works once. -/
def consumeBootstrap (out : Outside) (auth : Auth) : Call Auth := do
  if auth.changed = false ∧ auth.bootstrapExpiresUptimeMs ≠ .missing then do
    let auth := { auth with bootstrapConsumed := .value true }
    store out .auth (setAuth auth)
    return auth
  else return auth

def unlock (env : Env) (out : Outside) (pin : Field Text) : Call Reply := locked out do
  checkPin env out pin
  let token ← newToken out none
  let auth ← authRecord
  let auth ← consumeBootstrap out auth
  let state ← stateRecord env out
  let world ← get
  let required ← liftM (licenseRequired world (some auth))
  return .unlocked token state ((world.sessions.find token).any Item.setup) required

def lock (out : Outside) (token : Field Text) : Call Reply := do
  let token ← session out token true
  modify fun world => setSessions (world.sessions.erase token) world
  return .done

def pairCreate (env : Env) (out : Outside) (token : Field Text) (id credential name : Text)
    (client clientVersion : Field Text) : Call Reply := do
  let _ ← ownerSession out token false
  locked out do
    let _ ← session out token false
    let world ← get
    let record ← liftM
      (Pairing.register env world.disk.pairs id credential name out.now client clientVersion)
    store out .pairs (setPairs record)
    return .created id

/-- The count of failed credentials starts again with every window. -/
def openWindow (now : ℤ) (failures : Failures) : Failures :=
  if failureWindow ≤ now - failures.since then ⟨0, now⟩ else failures

def countFailure (now : ℤ) (failures : Failures) : Failures where
  count := failures.count + 1
  since := if failures.since = 0 then now else failures.since

/-- `pairing.authenticate`, counting the credentials it refuses. -/
def authenticate (env : Env) (out : Outside) (id credential : Text) : Call Pairing.Session := do
  let world ← get
  match Pairing.authenticate env world.disk.pairs id credential with
  | .ok paired => return paired
  | .error _ => do
    modify fun world => { world with failures := countFailure out.now world.failures }
    throw .unauthorized

/-- The record is written again when a phone reports new metadata. -/
def storeMetadata (out : Outside) (id : Text) (client clientVersion : Field Text) : Call Unit := do
  let world ← get
  let updated := Pairing.updateMetadata world.disk.pairs id client clientVersion
  if updated = world.disk.pairs then pure () else store out .pairs (setPairs updated)

/-- `pair.unlock` up to its new token. -/
def admitPairing (env : Env) (out : Outside) (id credential : Text)
    (client clientVersion : Field Text) : Call Pairing.Session := do
  modify fun world => { world with failures := openWindow out.now world.failures }
  let world ← get
  ensure (world.failures.count < failureLimit) .locked
  let auth ← authRecord
  ensure (auth.changed = true) .pinRequired
  let paired ← authenticate env out id credential
  storeMetadata out id client clientVersion
  return paired

def pairUnlock (env : Env) (out : Outside) (id credential : Text)
    (client clientVersion : Field Text) : Call Reply := locked out do
  let paired ← admitPairing env out id credential client clientVersion
  let token ← newToken out (some paired)
  let state ← stateRecord env out
  return .paired token state

def pairRevoke (out : Outside) (token : Field Text) (id : Text) : Call Reply := do
  let sid ← session out token false
  let world ← get
  ensure ((pairingOf world sid).all (·.id = id) = true) .unauthorized
  locked out do
    let _ ← session out token false
    let world ← get
    let record ← liftM (Pairing.revoke world.disk.pairs id)
    liftM out.handoff
    store out .pairs (setPairs record)
    modify fun world =>
      setSessions (world.sessions.filter fun entry => !entry.2.pairing.any (·.id = id)) world
    return .done

/-- What `setup.reset` checks under its lock: the record of the PIN and the stored state. -/
def resettable (env : Env) (out : Outside) (expected : ℕ) : Call (Auth × State) := do
  let previous ← authRecord
  let state ← stateRecord env out
  ensure (previous.changed = true) .pinRequired
  ensure (state.revision = expected ∧ state.revision < 0x7fffffff) .revisionConflict
  return (previous, state)

/-- What `setup.reset` stops and removes before it clears the table. -/
def quiesce (out : Outside) : Call Unit := do
  liftM out.handoff
  ensure (out.stops = true) .unavailable
  store out .base fun world => { world with disk := { world.disk with base := none } }
  resetAttempts out

/-- The files of a reset router, and the session that sets it up. -/
def wipe (out : Outside) (previous : Auth) (revision : ℕ) : Call Text := do
  modify (setSessions [])
  store out .state fun world =>
    { world with disk := world.disk.write { Model.defaults with revision } }
  store out .pairs (setPairs Pairing.defaults)
  store out .mobile fun world => { world with disk := { world.disk with mobile := [] } }
  store out .auth (setAuth {
    salt := previous.salt, hash := previous.hash, changed := false, resetPending := true })
  ensure (out.readsBack = true) .storageError
  let token ← newToken out none
  modify fun world => setSessions (world.sessions.put token {
    user := out.user, expires := out.now + 300, setup := true, reset := true }) world
  return token

def setupReset (env : Env) (out : Outside) (token : Field Text) (revision : Field ℤ)
    (confirm : Field Bool) : Call Reply := do
  let _ ← ownerSession out token false
  ensure (confirm = .value true) .unauthorized
  let expected ← liftM (Rpc.validRevision revision)
  locked out do
    let _ ← ownerSession out token false
    let (previous, state) ← resettable env out expected
    quiesce out
    let token ← wipe out previous (state.revision + 1)
    return .reset (state.revision + 1) token

inductive Act where
  | unlock (pin : Field Text)
  | lock (token : Field Text)
  | pairCreate (token : Field Text) (id credential name : Text) (client clientVersion : Field Text)
  | pairUnlock (id credential : Text) (client clientVersion : Field Text)
  | pairRevoke (token : Field Text) (id : Text)
  | changePin (token pin : Field Text) (acceptance : License)
  | adminPin (sid : Field Text) (access : Bool) (pin : Field Text) (acceptance : License)
  | setupReset (token : Field Text) (revision : Field ℤ) (confirm : Field Bool)
  /-- any other call, which starts with its session -/
  | other (token : Field Text)
deriving DecidableEq

/-- The token a call carries. -/
def Act.token : Act → Field Text
  | .lock token | .pairCreate token .. | .pairRevoke token _ | .changePin token _ _
  | .setupReset token _ _ | .other token => token
  | .unlock _ | .pairUnlock .. | .adminPin .. => .missing

/-- The calls that phones may not make. -/
def Act.ownerOnly : Act → Bool
  | .pairCreate .. | .changePin .. | .setupReset .. => true
  | _ => false

/-- `call` asks the guard first, except for the calls that must work beside a restore. -/
def guarded (out : Outside) (call : Call Reply) : Call Reply := do
  liftM out.guard
  call

def perform (env : Env) (out : Outside) : Act → Call Reply
  | .unlock pin => unlock env out pin
  | .lock token => lock out token
  | .pairCreate token id credential name client clientVersion =>
    guarded out (pairCreate env out token id credential name client clientVersion)
  | .pairUnlock id credential client clientVersion =>
    pairUnlock env out id credential client clientVersion
  | .pairRevoke token id => pairRevoke out token id
  | .changePin token pin acceptance => changePin env out token pin acceptance
  | .adminPin sid access pin acceptance => adminPin env out sid access pin acceptance
  | .setupReset token revision confirm => guarded out (setupReset env out token revision confirm)
  | .other token => do
    let _ ← session out token false
    return .done

/-- The calls run one after the other; one that fails keeps what it has written. -/
def Step (env : Env) (world : World) (label : Act × Outside) (world' : World) : Prop :=
  (exec (perform env label.2 label.1) world).2 = world'

end Foxhole.Sessions
