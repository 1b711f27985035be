import Foxhole.State
import Mathlib.Tactic.Ring
import Mathlib.Data.List.Perm.Subperm

/-! The inbound base: how many listeners there may be, and which port a new one takes. -/
namespace Foxhole

/-- inbound.json, as far as client allocation reads it. -/
structure Base where
  listenerMode : Field Text := .missing
  firstPort : Field ℤ := .missing
deriving DecidableEq

namespace Inbound
variable {used : List (Field ℤ)} {p q : ℤ} {n : ℕ} {base : Base} {c : Client} {cs : List Client}

def shared (base : Base) : Bool := base.listenerMode ≠ .value "per-client".toList

def limit (base : Base) : ℕ := if shared base then 32 else 4

/-- The ports of the clients that listen. -/
def usedPorts (clients : List Client) : List (Field ℤ) :=
  (clients.filter (·.inbound)).map (·.port)

/-- `base.firstPort || 14443` -/
def firstPort (base : Base) : Field ℤ :=
  match base.firstPort with
  | .missing | .value 0 => .value 14443
  | port => port

/-- `while (index(used, port) >= 0) port++`, for at most `fuel` rounds. -/
def skipUsed (used : List (Field ℤ)) : ℕ → ℤ → ℤ
  | 0, port => port
  | fuel + 1, port => if .value port ∈ used then skipUsed used fuel (port + 1) else port

/-- The port of a new listener. A first port that is no integer is never found among the ports in
use, and is taken as it stands. -/
def freePort (base : Base) (used : List (Field ℤ)) : Field ℤ :=
  if shared base then .value 443
  else
    match firstPort base with
    | .value port => .value (skipUsed used used.length port)
    | port => port

/-- `port > 65535` -/
def tooHigh (port : Field ℤ) : Bool := port.value?.any (65535 < ·)

theorem le_skipUsed : p ≤ skipUsed used n p := by
  induction n generalizing p with
  | zero => exact le_rfl
  | succ n ih =>
    rw [skipUsed]
    split
    · exact (Int.le_add_one le_rfl).trans ih
    · exact le_rfl

/-- No port in use is skipped without need: the result is at most any free port. -/
theorem skipUsed_le (hpq : p ≤ q) (hq : .value q ∉ used) : skipUsed used n p ≤ q := by
  induction n generalizing p with
  | zero => exact hpq
  | succ n ih =>
    rw [skipUsed]
    split
    · rename_i hp
      refine ih (Int.add_one_le_of_lt (lt_of_le_of_ne hpq ?_))
      rintro rfl
      exact hq hp
    · exact hpq

/-- Running out of fuel on a used port means that every port passed is used. -/
theorem used_of_skipUsed (h : .value (skipUsed used n p) ∈ used) :
    ∀ k ≤ n, Field.value (p + k) ∈ used := by
  induction n generalizing p with
  | zero =>
    intro k hk
    obtain rfl : k = 0 := by omega
    simpa [skipUsed] using h
  | succ n ih =>
    rw [skipUsed] at h
    split at h
    · rename_i hp
      intro k hk
      rcases k with _ | k
      · simpa using hp
      · have := ih h k (by omega)
        rwa [show p + 1 + (k : ℤ) = p + ((k + 1 : ℕ) : ℤ) by push_cast; ring] at this
    · exact absurd h ‹_›

/-- As many rounds as there are ports in use always end on a free port. -/
theorem skipUsed_free : .value (skipUsed used used.length p) ∉ used := by
  intro h
  have hall := used_of_skipUsed h
  have hsub : (List.range (used.length + 1)).map (fun k : ℕ => Field.value (p + (k : ℤ))) ⊆
      used := by
    intro x hx
    obtain ⟨k, hk, rfl⟩ := List.mem_map.1 hx
    exact hall k (by simpa using Nat.lt_succ_iff.1 (List.mem_range.1 hk))
  have hnodup : ((List.range (used.length + 1)).map
      (fun k : ℕ => Field.value (p + (k : ℤ)))).Nodup :=
    List.nodup_range.map fun a b hab => by simpa using hab
  have := (List.subperm_of_subset hnodup hsub).length_le
  simp at this

theorem firstPort_ne_missing : firstPort base ≠ .missing := by
  unfold firstPort
  split <;> simp_all

/-- The port of a new listener is free in per-client mode. -/
theorem freePort_not_mem (hs : shared base = false) (hused : .invalid ∉ used) :
    freePort base used ∉ used := by
  rw [freePort, if_neg (by simp [hs])]
  cases h : firstPort base with
  | missing => exact absurd h firstPort_ne_missing
  | invalid => exact hused
  | value port => exact skipUsed_free

end Inbound
end Foxhole
