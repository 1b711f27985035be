import Mathlib.Data.List.Basic
import Mathlib.Tactic.Common

/-! Byte streams in blocks: padding up to a block, and reading an exact number of bytes in
pieces. -/
namespace Blocks
variable {α : Type} {k n left : ℕ} {l input rest bytes : List α}

/-- What is missing from `n` to the next multiple of `k`. -/
def padding (k n : ℕ) : ℕ := (k - n % k) % k

theorem padding_lt (hk : 0 < k) : padding k n < k := Nat.mod_lt _ hk

/-- Padding rounds up, as `(n + (k - 1)) / k * k` does. -/
theorem add_padding (hk : 0 < k) : n + padding k n = (n + (k - 1)) / k * k := by
  have hmod := Nat.mod_lt n hk
  have hdiv := Nat.div_add_mod n k
  unfold padding
  by_cases hz : n % k = 0
  · have hq : (n + (k - 1)) / k = n / k := by
      rw [Nat.div_eq_iff hk]
      constructor
      · rw [Nat.mul_comm]; omega
      · rw [Nat.mul_comm]; omega
    rw [hz, Nat.sub_zero, Nat.mod_self, hq, Nat.mul_comm]
    omega
  · have hp : (k - n % k) % k = k - n % k := Nat.mod_eq_of_lt (by omega)
    have hq : (n + (k - 1)) / k = n / k + 1 := by
      rw [Nat.div_eq_iff hk]
      have hs : (n / k + 1) * k = k * (n / k) + k := by rw [Nat.add_mul, Nat.mul_comm]; omega
      constructor <;> omega
    rw [hp, hq, Nat.add_mul, Nat.mul_comm (n / k)]
    omega

/-- Exactly `n` bytes, with what is left of the input. -/
def readExact (n : ℕ) (input : List α) : Option (List α × List α) :=
  if input.length < n then none else some (input.take n, input.drop n)

theorem readExact_eq_some : readExact n input = some (bytes, rest) ↔
    input = bytes ++ rest ∧ bytes.length = n := by
  unfold readExact
  constructor
  · split
    · simp
    · rintro ⟨⟩
      exact ⟨(List.take_append_drop n input).symm, by rw [List.length_take]; omega⟩
  · rintro ⟨rfl, rfl⟩
    simp

/-- `left` bytes read in pieces of at most `size + 1`. -/
def readAll (size : ℕ) (left : ℕ) (input : List α) : Option (List α × List α) :=
  if left = 0 then some ([], input)
  else do
    let count := min (size + 1) left
    let (piece, input) ← readExact count input
    let (more, input) ← readAll size (left - count) input
    return (piece ++ more, input)
termination_by left
decreasing_by omega

/-- The pieces make no difference. -/
theorem readAll_eq (size : ℕ) : readAll size left input = readExact left input := by
  induction left using Nat.strongRecOn generalizing input with
  | ind left ih =>
    rw [readAll]
    split
    · next h => simp [readExact, h]
    · next h =>
      have hih := @ih (left - min (size + 1) left) (by omega)
      simp only [readExact] at hih ⊢
      by_cases hl : input.length < left
      · rw [if_pos hl]
        by_cases hc : input.length < min (size + 1) left
        · simp [hc]
        · have hd : (input.drop (min (size + 1) left)).length < left - min (size + 1) left := by
            rw [List.length_drop]; omega
          simp only [hc, if_false, Option.bind_eq_bind, Option.bind_some, hih, if_pos hd,
            Option.bind_none]
      · have hc : ¬ input.length < min (size + 1) left := by omega
        have hd : ¬ (input.drop (min (size + 1) left)).length < left - min (size + 1) left := by
          rw [List.length_drop]; omega
        have hsum : min (size + 1) left + (left - min (size + 1) left) = left := by omega
        have htake : input.take (min (size + 1) left) ++
            (input.drop (min (size + 1) left)).take (left - min (size + 1) left) =
            input.take left := by
          rw [← List.take_add, hsum]
        simp only [hc, hl, if_false, hih, if_neg hd, Option.bind_eq_bind, Option.bind_some,
          Option.pure_def, htake, List.drop_drop, hsum]

end Blocks
