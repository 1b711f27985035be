import Mathlib.Order.Bounds.Defs
import Mathlib.Order.Lattice
import Mathlib.Tactic.Common

/-! Passes over a list of edges that grow the set of reached nodes while they run, and keep the
least label of the edges they use. -/
namespace Passes

variable {α ε β : Type*} {src dst : ε → α} {label : ε → β} {edges : List ε} {start a : α} {n k : ℕ}
  {e : ε}

/-- Reached from `start` over at most `n` edges. -/
inductive Within (src dst : ε → α) (edges : List ε) (start : α) : ℕ → α → Prop
  | start {n : ℕ} : Within src dst edges start n start
  | edge {n : ℕ} {e : ε} : Within src dst edges start n (src e) → e ∈ edges →
      Within src dst edges start (n + 1) (dst e)

def Reached (src dst : ε → α) (edges : List ε) (start a : α) : Prop :=
  ∃ n, Within src dst edges start n a

theorem Within.succ (h : Within src dst edges start n a) :
    Within src dst edges start (n + 1) a := by
  induction h with
  | start => exact .start
  | edge _ he ih => exact .edge ih he

theorem Within.mono {m : ℕ} (h : Within src dst edges start n a) (hm : n ≤ m) :
    Within src dst edges start m a := by
  induction m, hm using Nat.le_induction with
  | base => exact h
  | succ m _ ih => exact ih.succ

/-- Only which edges there are counts. -/
theorem Within.of_subset {edges' : List ε} (h : Within src dst edges start n a)
    (hsub : edges ⊆ edges') : Within src dst edges' start n a := by
  induction h with
  | start => exact .start
  | edge _ he ih => exact .edge ih (hsub he)

theorem Reached.edge (h : Reached src dst edges start (src e)) (he : e ∈ edges) :
    Reached src dst edges start (dst e) := by
  obtain ⟨n, hn⟩ := h
  exact ⟨n + 1, .edge hn he⟩

/-- What the passes know: the nodes met and the least label used. -/
structure State (α β : Type*) where
  met : List α
  least : β

variable [DecidableEq α] [LinearOrder β]

def visit (src dst : ε → α) (label : ε → β) (s : State α β) (e : ε) : State α β :=
  if src e ∈ s.met then ⟨dst e :: s.met, min s.least (label e)⟩ else s

def pass (src dst : ε → α) (label : ε → β) (edges : List ε) (s : State α β) : State α β :=
  edges.foldl (visit src dst label) s

/-- Nothing is met that is not reached, and the least label is the first one or used. -/
structure Sound (src dst : ε → α) (label : ε → β) (edges : List ε) (start : α) (first : β)
    (s : State α β) : Prop where
  met : ∀ a ∈ s.met, Reached src dst edges start a
  least : s.least = first ∨
    ∃ e ∈ edges, Reached src dst edges start (src e) ∧ s.least = label e

/-- Everything within `k` edges is met, and the labels of the edges before that are counted. -/
structure Complete (src dst : ε → α) (label : ε → β) (edges : List ε) (start : α) (first : β)
    (k : ℕ) (s : State α β) : Prop where
  met : ∀ a, Within src dst edges start k a → a ∈ s.met
  first : s.least ≤ first
  least : ∀ e ∈ edges, ∀ j, j < k → Within src dst edges start j (src e) → s.least ≤ label e

variable {s : State α β} {first : β} {rest : List ε}

theorem met_visit : s.met ⊆ (visit src dst label s e).met := by
  unfold visit
  split
  · exact List.subset_cons_self _ _
  · exact List.Subset.refl _

theorem visit_least : (visit src dst label s e).least ≤ s.least := by
  unfold visit
  split
  · exact min_le_left _ _
  · exact le_refl _

theorem met_pass : s.met ⊆ (pass src dst label rest s).met := by
  induction rest generalizing s with
  | nil => exact List.Subset.refl _
  | cons e rest ih => exact List.Subset.trans met_visit ih

theorem pass_least : (pass src dst label rest s).least ≤ s.least := by
  induction rest generalizing s with
  | nil => exact le_refl _
  | cons e rest ih => exact (ih (s := visit src dst label s e)).trans visit_least

theorem Sound.visit (h : Sound src dst label edges start first s) (he : e ∈ edges) :
    Sound src dst label edges start first (visit src dst label s e) := by
  unfold Passes.visit
  split
  · rename_i hsrc
    have hr := h.met _ hsrc
    refine ⟨fun a ha => ?_, ?_⟩
    · rcases List.mem_cons.1 ha with rfl | ha
      · exact hr.edge he
      · exact h.met a ha
    · rcases le_total s.least (label e) with hle | hle
      · rw [min_eq_left hle]
        exact h.least
      · exact Or.inr ⟨e, he, hr, min_eq_right hle⟩
  · exact h

theorem Sound.pass (h : Sound src dst label edges start first s) (hsub : rest ⊆ edges) :
    Sound src dst label edges start first (pass src dst label rest s) := by
  induction rest generalizing s with
  | nil => exact h
  | cons e rest ih =>
    exact ih (h.visit (hsub List.mem_cons_self)) fun x hx => hsub (List.mem_cons_of_mem e hx)

/-- An edge from a node that is met is used in the pass. -/
theorem pass_edge (he : e ∈ rest) (hsrc : src e ∈ s.met) :
    dst e ∈ (pass src dst label rest s).met ∧ (pass src dst label rest s).least ≤ label e := by
  induction rest generalizing s with
  | nil => cases he
  | cons c rest ih =>
    rcases List.mem_cons.1 he with rfl | he
    · have hvisit : pass src dst label (e :: rest) s =
          pass src dst label rest ⟨dst e :: s.met, min s.least (label e)⟩ :=
        congrArg (pass src dst label rest) (if_pos hsrc)
      rw [hvisit]
      exact ⟨met_pass List.mem_cons_self, pass_least.trans (min_le_right _ _)⟩
    · exact ih he (met_visit hsrc)

theorem Complete.pass (h : Complete src dst label edges start first k s) :
    Complete src dst label edges start first (k + 1) (pass src dst label edges s) := by
  refine ⟨fun a ha => ?_, pass_least.trans h.first, fun e he j hj hw => ?_⟩
  · cases ha with
    | start => exact met_pass (h.met _ .start)
    | edge hw he => exact (pass_edge he (h.met _ hw)).1
  · have hk : Within src dst edges start k (src e) := hw.mono (by omega)
    exact (pass_edge he (h.met _ hk)).2

omit [DecidableEq α] [LinearOrder β] in
theorem sound_start : Sound src dst label edges start first ⟨[start], first⟩ :=
  ⟨fun _ ha => List.mem_singleton.1 ha ▸ ⟨0, .start⟩, Or.inl rfl⟩

omit [DecidableEq α] in
theorem complete_start : Complete src dst label edges start first 0 ⟨[start], first⟩ := by
  refine ⟨fun a ha => ?_, le_refl _, fun _ _ _ hj => absurd hj (Nat.not_lt_zero _)⟩
  cases ha with
  | start => exact List.mem_singleton_self start

/-- `k` passes from the start. -/
def passes (src dst : ε → α) (label : ε → β) (edges : List ε) (start : α) (first : β) :
    ℕ → State α β
  | 0 => ⟨[start], first⟩
  | k + 1 => pass src dst label edges (passes src dst label edges start first k)

section
variable (src dst : ε → α) (label : ε → β) (edges : List ε) (start : α) (first : β) (k : ℕ)

theorem sound_passes :
    Sound src dst label edges start first (passes src dst label edges start first k) := by
  induction k with
  | zero => exact sound_start
  | succ k ih => exact ih.pass (List.Subset.refl _)

theorem complete_passes :
    Complete src dst label edges start first k (passes src dst label edges start first k) := by
  induction k with
  | zero => exact complete_start
  | succ k ih => exact ih.pass

/-- When every edge that can be used starts within fewer than `k` steps, `k` passes meet just what
is reached, and keep the least of all labels that can be used. -/
theorem passes_closed
    (h : ∀ e ∈ edges, Reached src dst edges start (src e) →
      ∃ j, j < k ∧ Within src dst edges start j (src e)) :
    (∀ a, a ∈ (passes src dst label edges start first k).met ↔ Reached src dst edges start a) ∧
    IsLeast (insert first {l | ∃ e ∈ edges, Reached src dst edges start (src e) ∧ l = label e})
      (passes src dst label edges start first k).least := by
  have hs := sound_passes src dst label edges start first k
  have hc := complete_passes src dst label edges start first k
  refine ⟨fun a => ⟨hs.met a, ?_⟩, ?_, ?_⟩
  · rintro ⟨n, hn⟩
    apply hc.met
    cases hn with
    | start => exact .start
    | edge hw he =>
      obtain ⟨j, hj, hw⟩ := h _ he ⟨_, hw⟩
      exact (Within.edge hw he).mono hj
  · exact hs.least
  · rintro l (rfl | ⟨e, he, hr, rfl⟩)
    · exact hc.first
    · obtain ⟨j, hj, hw⟩ := h e he hr
      exact hc.least e he j hj hw

end
end Passes
