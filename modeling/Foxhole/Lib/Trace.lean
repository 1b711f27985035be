import Mathlib.Tactic.Common

/-! Labelled runs of a step relation: composition, invariants, and runs whose every step
meets a condition. -/
namespace Foxhole.Trace

variable {σ α : Type*} {step : σ → α → σ → Prop} {s t u : σ} {a : α} {xs ys : List α}

/-- A run of `step` from `s` to `t` under the labels `xs`. -/
inductive Run (step : σ → α → σ → Prop) : σ → List α → σ → Prop
  | refl (s : σ) : Run step s [] s
  | stepL {s u t : σ} {a : α} {xs : List α} :
      step s a u → Run step u xs t → Run step s (a :: xs) t

/-- The step relation cut down to the steps that meet the condition `C`. -/
def Guarded (C : σ → α → Prop) (step : σ → α → σ → Prop) (s : σ) (a : α) (t : σ) : Prop :=
  C s a ∧ step s a t

theorem run_nil : Run step s [] t ↔ s = t := by
  constructor
  · rintro ⟨⟩; rfl
  · rintro rfl; exact .refl s

theorem run_cons : Run step s (a :: xs) t ↔ ∃ u, step s a u ∧ Run step u xs t := by
  constructor
  · rintro ⟨⟩
    exact ⟨_, ‹_›, ‹_›⟩
  · rintro ⟨u, h, hr⟩
    exact .stepL h hr

theorem run_append : Run step s (xs ++ ys) t ↔ ∃ u, Run step s xs u ∧ Run step u ys t := by
  induction xs generalizing s with
  | nil => simp [run_nil]
  | cons a xs ih =>
    simp only [List.cons_append, run_cons, ih]
    exact ⟨fun ⟨v, h, u, hu, ht⟩ => ⟨u, ⟨v, h, hu⟩, ht⟩,
      fun ⟨u, ⟨v, h, hu⟩, ht⟩ => ⟨v, h, u, hu, ht⟩⟩

theorem Run.trans (h : Run step s xs u) (h' : Run step u ys t) : Run step s (xs ++ ys) t :=
  run_append.2 ⟨u, h, h'⟩

theorem Run.single (h : step s a t) : Run step s [a] t := .stepL h (.refl t)

theorem Run.stepR (h : Run step s xs u) (h' : step u a t) : Run step s (xs ++ [a]) t :=
  h.trans (.single h')

/-- What holds at the start and is kept by every step holds at the end of every run. -/
theorem Run.invariant {I : σ → Prop} (hstep : ∀ s a t, I s → step s a t → I t)
    (h : Run step s xs t) (hs : I s) : I t := by
  induction h with
  | refl => exact hs
  | stepL h _ ih => exact ih (hstep _ _ _ hs h)

/-- As `Run.invariant`, where keeping the property needs something of the label. -/
theorem Run.invariant_labels {I : σ → Prop} {C : α → Prop}
    (hstep : ∀ s a t, C a → I s → step s a t → I t)
    (h : Run step s xs t) (hC : ∀ a ∈ xs, C a) (hs : I s) : I t := by
  induction h with
  | refl => exact hs
  | stepL h _ ih =>
    exact ih (fun a ha => hC a (List.mem_cons_of_mem _ ha))
      (hstep _ _ _ (hC _ List.mem_cons_self) hs h)

/-- What holds of the empty run and is kept when a run grows by a step holds of every run. -/
theorem Run.grow {P : List α → σ → Prop} (hnil : P [] s)
    (hstep : ∀ xs u a v, Run step s xs u → P xs u → step u a v → P (xs ++ [a]) v)
    (h : Run step s xs t) : P xs t := by
  have hgen : ∀ u zs v, Run step u zs v → ∀ ys, Run step s ys u → P ys u → P (ys ++ zs) v := by
    intro u zs v hzs
    induction hzs with
    | refl => intro ys _ hP; simpa using hP
    | @stepL u v w a zs huv _ ih =>
      intro ys hys hP
      have := ih (ys ++ [a]) (hys.stepR huv) (hstep ys u a v hys hP huv)
      simpa using this
  exact hgen s xs t h [] (.refl s) hnil

theorem Run.mono {step' : σ → α → σ → Prop} (hm : ∀ s a t, step s a t → step' s a t)
    (h : Run step s xs t) : Run step' s xs t := by
  induction h with
  | refl s => exact .refl s
  | stepL h _ ih => exact .stepL (hm _ _ _ h) ih

theorem Run.of_guarded {C : σ → α → Prop} (h : Run (Guarded C step) s xs t) :
    Run step s xs t := h.mono fun _ _ _ h => h.2

/-- Every label of a run fires at a state the run passes through. -/
theorem Run.split (h : Run step s xs t) (ha : a ∈ xs) :
    ∃ ys zs u v, xs = ys ++ a :: zs ∧ Run step s ys u ∧ step u a v ∧ Run step v zs t := by
  obtain ⟨ys, zs, rfl⟩ := List.append_of_mem ha
  obtain ⟨u, hu, hr⟩ := run_append.1 h
  obtain ⟨v, hv, hz⟩ := run_cons.1 hr
  exact ⟨ys, zs, u, v, rfl, hu, hv, hz⟩

theorem Run.deterministic (hdet : ∀ s a t u, step s a t → step s a u → t = u) {t' : σ}
    (h : Run step s xs t) (h' : Run step s xs t') : t = t' := by
  induction h generalizing t' with
  | refl => exact run_nil.1 h'
  | stepL h _ ih =>
    obtain ⟨u, hu, h'⟩ := run_cons.1 h'
    obtain rfl := hdet _ _ _ _ h hu
    exact ih h'

/-- The label is taken at this state somewhere in the run. -/
def Fires (step : σ → α → σ → Prop) (s : σ) (xs : List α) (u : σ) (a : α) : Prop :=
  ∃ before after, xs = before ++ a :: after ∧ Run step s before u

theorem not_fires_nil : ¬ Fires step s [] u a := by
  rintro ⟨before, after, h, -⟩
  cases before <;> cases h

/-- A label of a run that has grown is one of before, or the last. -/
theorem Fires.of_append {b : α} (h : Fires step s (xs ++ [b]) u a) :
    Fires step s xs u a ∨ (a = b ∧ Run step s xs u) := by
  obtain ⟨before, after, he, hrun⟩ := h
  rcases List.eq_nil_or_concat after with rfl | ⟨after, c, rfl⟩
  · obtain ⟨rfl, hb⟩ := List.append_inj' he rfl
    cases hb
    exact Or.inr ⟨rfl, hrun⟩
  · rw [List.concat_eq_append, ← List.cons_append, ← List.append_assoc] at he
    obtain ⟨rfl, -⟩ := List.append_inj' he rfl
    exact Or.inl ⟨before, after, rfl, hrun⟩

end Foxhole.Trace
