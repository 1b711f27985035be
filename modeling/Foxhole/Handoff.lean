import Foxhole.Mobile
import Mathlib.Data.List.Sort

/-! The journal of phone routing leases: handoff.uc. -/
namespace Foxhole.Handoff
open Check Text Address

/-- MAX_LEASE -/
def maxLease : ℤ := 60000

inductive Mode where
  | phoneVpn | routerVpn
deriving DecidableEq

structure Target where
  address : Text
  port : Field ℤ
  transport : Text
deriving DecidableEq

structure Lease where
  pairId : Text
  verifier : Text
  claimId : Text
  mac : Text
  address : Text
  targets : List Target
  bootId : Text
  previousClaims : List Text
  updatedUptimeMs : ℤ
  expiresUptimeMs : ℤ
deriving DecidableEq

/-- The tombstone of a released claim. -/
structure Retired where
  pairId : Text
  verifier : Text
  claimId : Text
  bootId : Text
  expiresUptimeMs : ℤ
deriving DecidableEq

structure Journal where
  revision : ℤ := 0
  leases : List Lease := []
  retired : List Retired := []
deriving DecidableEq

structure Args where
  requestUptimeMs : Field ℤ
  claimId : Field Text
  mode : Field Mode
  address : Text
  expectedGeneration : Field Text := .missing
  expectedServerId : Field Text := .missing
  leaseMs : Field ℤ := .missing
  upstreamTargets : List Target := []
deriving DecidableEq

/-- `args.claimId || ''` -/
def Args.claim (args : Args) : Text := args.claimId.value?.getD []

/-- `^[a-f0-9-]{36}$` -/
def bootShape : Regex Char := .rep 36 (.cls fun c => isHex c || c = '-')

/-- An address of the public Internet. -/
def publicAddress (inet : Inet) (address : Text) : Bool :=
  hostAddress inet address = some address &&
  match (inet.iptoarr address).map (·.bytes) with
  | some [a, b, c, _] => a > 0 && a < 224 && a ≠ 10 && a ≠ 127 &&
      !(a = 100 && b ≥ 64 && b ≤ 127) && !(a = 169 && b = 254) &&
      !(a = 172 && b ≥ 16 && b ≤ 31) &&
      !(a = 192 && (b = 168 || (b = 0 && (c = 0 || c = 2)))) &&
      !(a = 198 && (b = 18 || b = 19 || (b = 51 && c = 100))) &&
      !(a = 203 && b = 0 && c = 113)
  | some (a :: b :: c :: d :: _) => a ≥ 0x20 && a ≤ 0x3f &&
      !(a = 0x20 && b = 1 && ((c = 0 && d ≤ 0x2f) || (c = 0x0d && d = 0xb8))) &&
      !(a = 0x20 && b = 2)
  | _ => false

def validTarget (inet : Inet) (target : Target) : Bool :=
  publicAddress inet target.address && target.port.value?.any (fun p => 1 ≤ p && p ≤ 65535) &&
  (target.transport = "tcp".toList || target.transport = "udp".toList)

/-- `address + ':' + item.port + ':' + item.transport` -/
def Target.key (target : Target) : Text × Field ℤ × Text :=
  (target.address, target.port, target.transport)

/-- The order of the printed targets: by address, then by the digits of the port. -/
def Target.print (target : Target) : Text :=
  target.address ++ "\",".toList ++ decimal (target.port.value?.getD 0).toNat ++ ",".toList ++
    target.transport

def targets (inet : Inet) (value : List Target) : Except Err (List Target) := do
  require (value ≠ [] ∧ value.length ≤ 8) .invalidHandoff
  require (∀ target ∈ value, validTarget inet target = true) .invalidHandoff
  require ((value.map Target.key).Nodup) .invalidHandoff
  return value.insertionSort fun a b => ¬ b.print < a.print

def validRetired (entry : Retired) : Bool :=
  Pairing.validId entry.pairId && (hexOf 64).accepts entry.verifier &&
  (hexOf 32).accepts entry.claimId && bootShape.accepts entry.bootId && 0 ≤ entry.expiresUptimeMs

/-- What `journal` requires of one lease, other than a pair of its own. -/
def validLease (inet : Inet) (lease : Lease) : Bool :=
  Pairing.validId lease.pairId && (hexOf 64).accepts lease.verifier &&
  (hexOf 32).accepts lease.claimId && bootShape.accepts lease.bootId &&
  (normalizeMac lease.mac).toOption = some lease.mac &&
  hostAddress inet lease.address = some lease.address &&
  0 ≤ lease.expiresUptimeMs && 0 ≤ lease.updatedUptimeMs &&
  lease.expiresUptimeMs - lease.updatedUptimeMs ≤ maxLease &&
  lease.updatedUptimeMs ≤ lease.expiresUptimeMs &&
  lease.previousClaims.length ≤ 32 &&
  (lease.previousClaims.all fun claim => (hexOf 32).accepts claim && claim ≠ lease.claimId) &&
  lease.previousClaims.Nodup && (targets inet lease.targets).toOption.isSome

def journal (inet : Inet) (value : Journal) : Except Err Journal := do
  require (0 ≤ value.revision ∧ value.revision < 2147483647) .invalidHandoff
  require (value.leases.length ≤ 16 ∧ value.retired.length ≤ 96) .invalidHandoff
  require (∀ entry ∈ value.retired, validRetired entry = true) .invalidHandoff
  require (∀ lease ∈ value.leases, validLease inet lease = true) .invalidHandoff
  require ((value.leases.map Lease.pairId).Nodup) .invalidHandoff
  return value

/-- A lease of this boot, running, of a current session. -/
def Lease.live (pairs : Pairing.Record) (now : ℤ) (boot : Text) (lease : Lease) : Bool :=
  lease.bootId = boot && lease.updatedUptimeMs ≤ now && now < lease.expiresUptimeMs &&
  Pairing.sessionCurrent pairs ⟨lease.pairId, lease.verifier⟩

def active (inet : Inet) (value : Journal) (pairs : Pairing.Record) (now : ℤ) (boot : Text) :
    Except Err (List Lease) := do
  require (0 ≤ now) .invalidHandoff
  let record ← journal inet value
  return record.leases.filter (·.live pairs now boot)

/-- A tombstone of this boot that still stands, of a current session. -/
def Retired.live (pairs : Pairing.Record) (now : ℤ) (boot : Text) (entry : Retired) : Bool :=
  entry.bootId = boot && now < entry.expiresUptimeMs &&
  Pairing.sessionCurrent pairs ⟨entry.pairId, entry.verifier⟩

/-- The request is at most 5 s old, and from at most 1 s ahead. -/
def inWindow (requested : Field ℤ) (now : ℤ) : Bool :=
  requested.value?.any fun at' => 0 ≤ at' && at' ≤ now + 1000 && now - at' ≤ 5000

/-- The phone of the journal that the session belongs to, at the address it calls from. -/
def samePhone (paired : Pairing.Session) (args : Args) (phone : Mobile.Phone) : Bool :=
  phone.pairId = paired.id && phone.verifier = paired.verifier && phone.lanDeviceId.isSome &&
  phone.address = args.address

/-- The last live lease of the pair. -/
def findLease (live : List Lease) (id : Text) : Option Lease :=
  (live.filter (·.pairId = id)).getLast?

def tombstone (paired : Pairing.Session) (now : ℤ) (boot claim : Text) : Retired where
  pairId := paired.id
  verifier := paired.verifier
  claimId := claim
  bootId := boot
  expiresUptimeMs := now + maxLease

/-- The claims a lease stands for. -/
def Lease.claims (lease : Lease) : List Text := lease.previousClaims ++ [lease.claimId]

/-- `router_vpn`: the lease goes, its claims are retired. -/
def release (paired : Pairing.Session) (args : Args) (now : ℤ) (boot : Text) (found : Option Lease)
    (live : List Lease) (retired : List Retired) : Except Err (List Lease × List Retired) := do
  require (∀ lease ∈ found, lease.claimId = args.claim) .handoffConflict
  require ((hexOf 16).accepts (args.expectedGeneration.value?.getD []) = true ∧
    (tagged "server".toList 12).accepts (args.expectedServerId.value?.getD []) = true)
    .invalidHandoff
  let claims := found.elim [] Lease.claims
  require (claims = [] ∨ retired.length + claims.length ≤ 96) .handoffConflict
  return (live.filter (·.pairId ≠ paired.id), retired ++ claims.map (tombstone paired now boot))

/-- The claims that a claim replaces: those of the live lease but for itself. -/
def replaced (found : Option Lease) (claim : Text) : List Text :=
  found.elim [] fun lease => if lease.claimId = claim then lease.previousClaims else lease.claims

/-- `phone_vpn`: the lease of the pair is the claim's. -/
def take (inet : Inet) (paired : Pairing.Session) (phone : Mobile.Phone) (args : Args) (now : ℤ)
    (boot : Text) (found : Option Lease) (live : List Lease) (leaseMs : ℤ) :
    Except Err (List Lease) := do
  require (1000 ≤ leaseMs ∧ leaseMs ≤ maxLease) .invalidHandoff
  let selected ← targets inet args.upstreamTargets
  require (∀ lease ∈ found, lease.claimId = args.claim → selected = lease.targets) .handoffConflict
  require (∀ lease ∈ found, lease.claimId ≠ args.claim → lease.previousClaims.length < 32)
    .handoffConflict
  let lease : Lease := {
    pairId := paired.id, verifier := paired.verifier, claimId := args.claim
    mac := phone.mac, address := phone.address, targets := selected, bootId := boot
    previousClaims := replaced found args.claim
    updatedUptimeMs := now, expiresUptimeMs := now + leaseMs }
  return live.filter (·.pairId ≠ paired.id) ++ [lease]

/-- The leases and tombstones after an admitted request. -/
def change (inet : Inet) (paired : Pairing.Session) (phone : Mobile.Phone) (args : Args) (now : ℤ)
    (boot : Text) (live : List Lease) (retired : List Retired) :
    Except Err (List Lease × List Retired) :=
  let found := findLease live paired.id
  match args.mode, args.leaseMs with
  | .value .routerVpn, _ => release paired args now boot found live retired
  | .value .phoneVpn, .value leaseMs =>
    (·, retired) <$> take inet paired phone args now boot found live leaseMs
  | _, _ => .error .invalidHandoff

/-- A retired claim may not be taken, nor any request repeat a replaced one. -/
def fenced (paired : Pairing.Session) (args : Args) (live : List Lease) (retired : List Retired) :
    Prop :=
  (args.mode = .value .phoneVpn ∧
    ∃ entry ∈ retired, entry.pairId = paired.id ∧ entry.claimId = args.claim) ∨
  ∃ lease ∈ findLease live paired.id, args.claim ∈ lease.previousClaims

instance (paired : Pairing.Session) (args : Args) (live : List Lease) (retired : List Retired) :
    Decidable (fenced paired args live retired) := by
  unfold fenced; infer_instance

def request (inet : Inet) (value : Journal) (pairs : Pairing.Record) (paired : Pairing.Session)
    (phone : Option Mobile.Phone) (args : Args) (now : ℤ) (boot : Text) : Except Err Journal := do
  require (bootShape.accepts boot = true) .invalidHandoff
  require (inWindow args.requestUptimeMs now = true) .invalidHandoff
  let record ← journal inet value
  let live ← active inet record pairs now boot
  let retired := record.retired.filter (·.live pairs now boot)
  match phone with
  | none => throw .invalidHandoff
  | some phone => do
    require (Pairing.sessionCurrent pairs paired = true ∧ samePhone paired args phone = true ∧
      (hexOf 32).accepts args.claim = true ∧ args.mode.value?.isSome = true) .invalidHandoff
    require (¬ fenced paired args live retired) .handoffConflict
    let (leases, retired) ← change inet paired phone args now boot live retired
    journal inet ⟨record.revision + 1, leases, retired⟩

end Foxhole.Handoff
