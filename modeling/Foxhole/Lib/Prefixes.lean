import Mathlib.Data.Nat.Bitwise
import Mathlib.Data.Set.Basic
import Mathlib.Tactic.Common
import Mathlib.Tactic.Ring

/-! Prefixes of numbers of a fixed width, and numbers as lists of bytes. -/
namespace Prefixes

variable {w p q n m x : ℕ} {l l' : List ℕ}

/-- The numbers of width `w` that agree with `n` in the first `p` bits. -/
def block (w p n : ℕ) : Set ℕ := {x | x < 2 ^ w ∧ x / 2 ^ (w - p) = n / 2 ^ (w - p)}

theorem mem_block : x ∈ block w p n ↔ x < 2 ^ w ∧ x / 2 ^ (w - p) = n / 2 ^ (w - p) := Iff.rfl

theorem self_mem_block (hn : n < 2 ^ w) : n ∈ block w p n := ⟨hn, rfl⟩

/-- A shorter prefix is read off a longer one. -/
theorem div_of_longer (hqp : q ≤ p) (hp : p ≤ w) :
    n / 2 ^ (w - q) = n / 2 ^ (w - p) / 2 ^ (p - q) := by
  have hsum : w - q = (w - p) + (p - q) := by omega
  rw [hsum, Nat.pow_add, Nat.div_div_eq_div_mul]

/-- One block lies in another when its prefix goes on where the other ends. -/
theorem block_subset_iff (hp : p ≤ w) (hq : q ≤ w) (hn : n < 2 ^ w) :
    block w p n ⊆ block w q m ↔ q ≤ p ∧ n / 2 ^ (w - q) = m / 2 ^ (w - q) := by
  constructor
  · intro hsub
    have hm : n / 2 ^ (w - q) = m / 2 ^ (w - q) := (hsub (self_mem_block hn)).2
    refine ⟨Nat.le_of_not_lt fun hlt => ?_, hm⟩
    -- the first number of the block, and one that differs from it behind the prefix `p` only
    have hsum : w - p = (w - q) + (q - p) := by omega
    have hpos : 0 < 2 ^ (w - p) := Nat.two_pow_pos _
    have hposq : 0 < 2 ^ (w - q) := Nat.two_pow_pos _
    have hsize : 2 ^ (w - q) < 2 ^ (w - p) := Nat.pow_lt_pow_right (by omega) (by omega)
    have hwhole : 2 ^ w = 2 ^ p * 2 ^ (w - p) := by rw [← Nat.pow_add]; congr 1; omega
    have hquot : n / 2 ^ (w - p) < 2 ^ p := by
      rw [Nat.div_lt_iff_lt_mul hpos, ← hwhole]
      exact hn
    have hroom : (n / 2 ^ (w - p) + 1) * 2 ^ (w - p) ≤ 2 ^ w := by
      rw [hwhole]
      exact Nat.mul_le_mul_right _ hquot
    have hroom' : n / 2 ^ (w - p) * 2 ^ (w - p) + 2 ^ (w - p) ≤ 2 ^ w := by
      rw [Nat.add_mul, Nat.one_mul] at hroom
      exact hroom
    have hfirst : n / 2 ^ (w - p) * 2 ^ (w - p) ∈ block w p n := by
      refine ⟨by omega, ?_⟩
      rw [Nat.mul_div_cancel _ hpos]
    have hother : n / 2 ^ (w - p) * 2 ^ (w - p) + 2 ^ (w - q) ∈ block w p n := by
      refine ⟨by omega, ?_⟩
      rw [Nat.mul_comm, Nat.mul_add_div hpos, Nat.div_eq_of_lt hsize, Nat.add_zero]
    have h₁ := (hsub hfirst).2
    have h₂ := (hsub hother).2
    rw [Nat.add_div_right _ hposq] at h₂
    omega
  · rintro ⟨hqp, hm⟩ x ⟨hx, hxn⟩
    refine ⟨hx, ?_⟩
    rw [div_of_longer hqp hp, hxn, ← div_of_longer hqp hp, hm]

/-- A block determines its prefix. -/
theorem block_eq_iff (hp : p ≤ w) (hq : q ≤ w) (hn : n < 2 ^ w) (hm : m < 2 ^ w) :
    block w p n = block w q m ↔ p = q ∧ n / 2 ^ (w - q) = m / 2 ^ (w - q) := by
  constructor
  · intro heq
    obtain ⟨hqp, hdiv⟩ := (block_subset_iff hp hq hn).1 (le_of_eq heq)
    obtain ⟨hpq, -⟩ := (block_subset_iff hq hp hm).1 (le_of_eq heq.symm)
    exact ⟨by omega, hdiv⟩
  · rintro ⟨rfl, hdiv⟩
    ext x
    rw [mem_block, mem_block, hdiv]

/-! Numbers as bytes, the highest first. -/

def value : List ℕ → ℕ
  | [] => 0
  | b :: l => b * 2 ^ (8 * l.length) + value l

theorem value_lt (h : ∀ b ∈ l, b < 256) : value l < 2 ^ (8 * l.length) := by
  induction l with
  | nil => simp [value]
  | cons b l ih =>
    have hb : b < 256 := h b List.mem_cons_self
    have hl := ih fun c hc => h c (List.mem_cons_of_mem b hc)
    have hpow : 2 ^ (8 * (b :: l).length) = 256 * 2 ^ (8 * l.length) := by
      rw [List.length_cons, Nat.mul_add, Nat.pow_add]
      ring
    have hmul : (b + 1) * 2 ^ (8 * l.length) ≤ 256 * 2 ^ (8 * l.length) :=
      Nat.mul_le_mul_right _ hb
    rw [Nat.add_mul, Nat.one_mul] at hmul
    rw [hpow, value]
    omega

/-- Every number that fits has bytes. -/
theorem exists_value (k : ℕ) (hx : x < 2 ^ (8 * k)) :
    ∃ l : List ℕ, l.length = k ∧ (∀ b ∈ l, b < 256) ∧ value l = x := by
  induction k generalizing x with
  | zero => exact ⟨[], rfl, by simp, by simp at hx; simp [value, hx]⟩
  | succ k ih =>
    have hpos : 0 < 2 ^ (8 * k) := Nat.two_pow_pos _
    obtain ⟨l, hlen, hl, hval⟩ := ih (Nat.mod_lt x hpos)
    have hpow : 2 ^ (8 * (k + 1)) = 256 * 2 ^ (8 * k) := by
      rw [Nat.mul_add, Nat.pow_add]
      ring
    refine ⟨x / 2 ^ (8 * k) :: l, by simp [hlen], ?_, ?_⟩
    · intro b hb
      rcases List.mem_cons.1 hb with rfl | hb
      · rw [Nat.div_lt_iff_lt_mul hpos, ← hpow]
        exact hx
      · exact hl b hb
    · rw [value, hlen, hval, Nat.mul_comm]
      exact Nat.div_add_mod x _

theorem value_inj (h : ∀ b ∈ l, b < 256) (h' : ∀ b ∈ l', b < 256) (hlen : l.length = l'.length)
    (hv : value l = value l') : l = l' := by
  induction l generalizing l' with
  | nil => exact (List.length_eq_zero_iff.1 hlen.symm).symm
  | cons b l ih =>
    cases l' with
    | nil => simp at hlen
    | cons b' l' =>
      have hlen' : l.length = l'.length := by simpa using hlen
      have hl := fun c hc => h c (List.mem_cons_of_mem b hc)
      have hl' := fun c hc => h' c (List.mem_cons_of_mem b' hc)
      have hlt := value_lt hl
      have hlt' := value_lt hl'
      have hpos : 0 < 2 ^ (8 * l.length) := Nat.two_pow_pos _
      rw [value, value, ← hlen'] at hv
      rw [← hlen'] at hlt'
      have hb : b = b' := by
        have hdiv := congrArg (· / 2 ^ (8 * l.length)) hv
        simp only [Nat.mul_comm _ (2 ^ (8 * l.length)), Nat.mul_add_div hpos,
          Nat.div_eq_of_lt hlt, Nat.div_eq_of_lt hlt', Nat.add_zero] at hdiv
        exact hdiv
      subst hb
      rw [ih hl hl' hlen' (by omega)]

/-- The first bits of a number beyond its first byte. -/
theorem value_cons_div_tail {b s : ℕ} (hs : s ≤ 8 * l.length) :
    value (b :: l) / 2 ^ s = b * 2 ^ (8 * l.length - s) + value l / 2 ^ s := by
  have hpow : 2 ^ (8 * l.length) = 2 ^ (8 * l.length - s) * 2 ^ s := by
    rw [← Nat.pow_add]
    congr 1
    omega
  rw [value, hpow, ← Nat.mul_assoc, Nat.mul_comm _ (2 ^ s), Nat.mul_add_div (Nat.two_pow_pos s)]

/-- The first bits of a number within its first byte. -/
theorem value_cons_div_head {b s : ℕ} (hl : ∀ c ∈ l, c < 256) :
    value (b :: l) / 2 ^ (8 * l.length + s) = b / 2 ^ s := by
  have hpos : 0 < 2 ^ (8 * l.length) := Nat.two_pow_pos _
  rw [value, Nat.pow_add, ← Nat.div_div_eq_div_mul, Nat.mul_comm b, Nat.mul_add_div hpos,
    Nat.div_eq_of_lt (value_lt hl), Nat.add_zero]

theorem value_tail_lt {s : ℕ} (hs : s ≤ 8 * l.length) (hl : ∀ c ∈ l, c < 256) :
    value l / 2 ^ s < 2 ^ (8 * l.length - s) := by
  have hpow : 2 ^ (8 * l.length) = 2 ^ (8 * l.length - s) * 2 ^ s := by
    rw [← Nat.pow_add]
    congr 1
    omega
  rw [Nat.div_lt_iff_lt_mul (Nat.two_pow_pos s), ← hpow]
  exact value_lt hl

end Prefixes
