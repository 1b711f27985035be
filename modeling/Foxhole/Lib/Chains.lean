import Mathlib.Tactic.Common

/-! Packet filters made of named chains: rules are tried in order, a chain may jump to another
one and come back, or go to it for good. -/
namespace Foxhole.Chains

variable {ι π α : Type*}

inductive Verdict (ι : Type*)
  | next | accept | drop | ret
  | jump (chain : ι)
  | goto (chain : ι)
deriving DecidableEq

/-- A rule that applies changes the packet first and then takes its verdict. -/
structure Rule (ι π : Type*) where
  applies : π → Bool
  update : π → π
  verdict : Verdict ι

/-- How a chain ends: with a final verdict, or back at its caller. -/
inductive Outcome (π : Type*)
  | accepted (p : π)
  | dropped
  | returned (p : π)
deriving DecidableEq

/-- The rules of one chain; `call` evaluates the chains it names. -/
def runRules (call : ι → π → Option (Outcome π)) : List (Rule ι π) → π → Option (Outcome π)
  | [], p => some (.returned p)
  | rule :: rules, p =>
    if rule.applies p then
      match rule.verdict with
      | .next => runRules call rules (rule.update p)
      | .accept => some (.accepted (rule.update p))
      | .drop => some .dropped
      | .ret => some (.returned (rule.update p))
      | .goto chain => call chain (rule.update p)
      | .jump chain =>
        match call chain (rule.update p) with
        | some (.returned q) => runRules call rules q
        | outcome => outcome
    else runRules call rules p

/-- A chain with at most `depth` nested jumps; none when it needs more. -/
def run (chains : ι → List (Rule ι π)) : ℕ → ι → π → Option (Outcome π)
  | 0, _, _ => none
  | depth + 1, chain, p => runRules (run chains depth) (chains chain) p

variable {call : ι → π → Option (Outcome π)} {rule : Rule ι π} {rules rules' : List (Rule ι π)}
  {chains : ι → List (Rule ι π)} {chain : ι} {depth : ℕ} {p q : π}

theorem run_succ : run chains (depth + 1) chain p = runRules (run chains depth) (chains chain) p :=
  rfl

@[simp] theorem runRules_nil : runRules call [] p = some (.returned p) := rfl

theorem runRules_skip (h : rule.applies p = false) :
    runRules call (rule :: rules) p = runRules call rules p := by
  rw [runRules, h]
  rfl

theorem runRules_next (h : rule.applies p = true) (hv : rule.verdict = .next) :
    runRules call (rule :: rules) p = runRules call rules (rule.update p) := by
  rw [runRules, if_pos h, hv]

theorem runRules_accept (h : rule.applies p = true) (hv : rule.verdict = .accept) :
    runRules call (rule :: rules) p = some (.accepted (rule.update p)) := by
  rw [runRules, if_pos h, hv]

theorem runRules_drop (h : rule.applies p = true) (hv : rule.verdict = .drop) :
    runRules call (rule :: rules) p = some .dropped := by
  rw [runRules, if_pos h, hv]

theorem runRules_ret (h : rule.applies p = true) (hv : rule.verdict = .ret) :
    runRules call (rule :: rules) p = some (.returned (rule.update p)) := by
  rw [runRules, if_pos h, hv]

theorem runRules_goto (h : rule.applies p = true) (hv : rule.verdict = .goto chain) :
    runRules call (rule :: rules) p = call chain (rule.update p) := by
  rw [runRules, if_pos h, hv]

/-- A jump whose chain reaches a verdict ends there. -/
theorem runRules_jump_accepted (h : rule.applies p = true) (hv : rule.verdict = .jump chain)
    (hc : call chain (rule.update p) = some (.accepted q)) :
    runRules call (rule :: rules) p = some (.accepted q) := by
  rw [runRules, if_pos h, hv]
  simp only [hc]

/-- A jump whose chain returns goes on with the next rule. -/
theorem runRules_jump_returned (h : rule.applies p = true) (hv : rule.verdict = .jump chain)
    (hc : call chain (rule.update p) = some (.returned q)) :
    runRules call (rule :: rules) p = runRules call rules q := by
  rw [runRules, if_pos h, hv]
  simp only [hc]

/-- A block of rules made from a list, each going to a chain of its own: the first item that
applies decides, and without one the block is as if absent. -/
theorem runRules_gotos (items : List α) (toRule : α → Rule ι π) (target : α → ι)
    (hu : ∀ a ∈ items, (toRule a).update p = p)
    (hv : ∀ a ∈ items, (toRule a).verdict = .goto (target a)) :
    runRules call (items.map toRule ++ rules) p =
      match items.find? fun a => (toRule a).applies p with
      | some a => call (target a) p
      | none => runRules call rules p := by
  induction items with
  | nil => rfl
  | cons a items ih =>
    have hua := hu a List.mem_cons_self
    have hva := hv a List.mem_cons_self
    rw [List.map_cons, List.cons_append]
    rw [List.find?_cons]
    cases ha : (toRule a).applies p with
    | true => rw [runRules_goto ha hva, hua]
    | false =>
      rw [runRules_skip ha]
      exact ih (fun b hb => hu b (List.mem_cons_of_mem _ hb))
        fun b hb => hv b (List.mem_cons_of_mem _ hb)

/-- At this packet the rule either does nothing or accepts a packet with `P`. -/
def AcceptsOrPasses (call : ι → π → Option (Outcome π)) (P : π → Prop) (p : π)
    (rule : Rule ι π) : Prop :=
  (∀ rest, runRules call (rule :: rest) p = runRules call rest p) ∨
    ∃ q, P q ∧ ∀ rest, runRules call (rule :: rest) p = some (.accepted q)

variable {P : π → Prop}

theorem acceptsOrPasses_accept (hv : rule.verdict = .accept) (hP : P (rule.update p)) :
    AcceptsOrPasses call P p rule := by
  cases ha : rule.applies p with
  | true => exact Or.inr ⟨_, hP, fun _ => runRules_accept ha hv⟩
  | false => exact Or.inl fun _ => runRules_skip ha

theorem acceptsOrPasses_goto (hv : rule.verdict = .goto chain)
    (hc : ∃ q, P q ∧ call chain (rule.update p) = some (.accepted q)) :
    AcceptsOrPasses call P p rule := by
  obtain ⟨q, hP, hc⟩ := hc
  cases ha : rule.applies p with
  | true => exact Or.inr ⟨q, hP, fun _ => (runRules_goto ha hv).trans hc⟩
  | false => exact Or.inl fun _ => runRules_skip ha

theorem acceptsOrPasses_jump (hv : rule.verdict = .jump chain)
    (hc : call chain (rule.update p) = some (.returned p) ∨
      ∃ q, P q ∧ call chain (rule.update p) = some (.accepted q)) :
    AcceptsOrPasses call P p rule := by
  cases ha : rule.applies p with
  | true =>
    rcases hc with hc | ⟨q, hP, hc⟩
    · exact Or.inl fun _ => runRules_jump_returned ha hv hc
    · exact Or.inr ⟨q, hP, fun _ => runRules_jump_accepted ha hv hc⟩
  | false => exact Or.inl fun _ => runRules_skip ha

/-- Rules that accept with `P` or do nothing, in front of rules that accept with `P`. -/
theorem runRules_append_accepts (h : ∀ rule ∈ rules, AcceptsOrPasses call P p rule)
    (h' : ∃ q, P q ∧ runRules call rules' p = some (.accepted q)) :
    ∃ q, P q ∧ runRules call (rules ++ rules') p = some (.accepted q) := by
  induction rules with
  | nil => exact h'
  | cons rule rules ih =>
    rw [List.cons_append]
    rcases h rule List.mem_cons_self with hpass | ⟨q, hP, hq⟩
    · rw [hpass]
      exact ih fun r hr => h r (List.mem_cons_of_mem _ hr)
    · exact ⟨q, hP, hq _⟩

end Foxhole.Chains
