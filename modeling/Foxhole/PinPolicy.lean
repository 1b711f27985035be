import Foxhole.State

/-! The record of failed PIN attempts, and the cool-down it imposes. -/
namespace Foxhole.PinPolicy
open Check Text

/-- /tmp/foxhole/pin-attempts.json -/
structure Attempts where
  bootId : Text
  failures : ℤ
  tier : ℤ
  blockedUntilUptimeMs : ℤ
  lastUptimeMs : ℤ
deriving DecidableEq

def maxTime : ℤ := 9007199254440991

def bootShape : Regex Char :=
  .seq (hexOf 8) (.seq (.lit ['-']) (.seq (hexOf 4) (.seq (.lit ['-']) (.seq (hexOf 4)
    (.seq (.lit ['-']) (.seq (hexOf 4) (.seq (.lit ['-']) (hexOf 12))))))))

/-- What `clock()` reads: the uptime in milliseconds, and the boot it is of. -/
structure Stamp where
  now : ℤ
  boot : Text
deriving DecidableEq

def Stamp.Valid (stamp : Stamp) : Prop :=
  0 ≤ stamp.now ∧ stamp.now ≤ maxTime ∧ bootShape.accepts stamp.boot = true

instance (stamp : Stamp) : Decidable stamp.Valid :=
  inferInstanceAs (Decidable (_ ∧ _ ∧ _))

/-- `initial`, behind its check of the clock. -/
def blank (stamp : Stamp) : Attempts where
  bootId := stamp.boot
  failures := 0
  tier := 0
  blockedUntilUptimeMs := 0
  lastUptimeMs := stamp.now

def initial (stamp : Stamp) : Except Err Attempts := do
  require stamp.Valid .storageError
  return blank stamp

/-- The members of a stored record are in range. -/
def Attempts.Valid (value : Attempts) : Prop :=
  bootShape.accepts value.bootId = true ∧ 0 ≤ value.failures ∧ value.failures ≤ 5 ∧
    0 ≤ value.tier ∧ value.tier ≤ 2 ∧ 0 ≤ value.lastUptimeMs ∧ value.lastUptimeMs ≤ maxTime ∧
    0 ≤ value.blockedUntilUptimeMs ∧ value.blockedUntilUptimeMs ≤ value.lastUptimeMs + 300000 ∧
    (value.tier = 0 → value.blockedUntilUptimeMs = 0)

instance (value : Attempts) : Decidable value.Valid :=
  inferInstanceAs (Decidable (_ ∧ _ ∧ _ ∧ _ ∧ _ ∧ _ ∧ _ ∧ _ ∧ _ ∧ _))

/-- A record of an earlier boot counts as none. -/
def checked (value : Field Attempts) (stamp : Stamp) : Except Err Attempts := do
  require stamp.Valid .storageError
  match value with
  | .missing => return blank stamp
  | .invalid => throw .storageError
  | .value value => do
    require value.Valid .storageError
    if value.bootId ≠ stamp.boot then return blank stamp
    else do
      require (value.lastUptimeMs ≤ stamp.now) .storageError
      return { value with lastUptimeMs := stamp.now }

/-- The seconds a block still lasts. -/
def remaining (value : Attempts) (now : ℤ) : ℤ :=
  let delta := value.blockedUntilUptimeMs - now
  if 0 < delta then (delta + 999) / 1000 else 0

/-- One more failure; the sixth starts a block. -/
def fail (value : Attempts) (stamp : Stamp) : Attempts :=
  if value.failures + 1 = 6 then
    let tier := if value.tier = 0 then 1 else 2
    { value with
      failures := 0
      tier := tier
      blockedUntilUptimeMs := stamp.now + if tier = 1 then 60000 else 300000 }
  else { value with failures := value.failures + 1 }

def failed (value : Attempts) (stamp : Stamp) : Except Err Attempts := do
  let result ← checked (.value value) stamp
  if remaining result stamp.now ≠ 0 then return result else return fail result stamp

end Foxhole.PinPolicy
