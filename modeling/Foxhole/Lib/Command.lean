import Mathlib.Tactic.Common

/-! Commands on a state that may fail, and keep what they have written when they do. -/
namespace Foxhole

/-- A command: it returns or fails, and leaves a state either way. -/
abbrev Command (ε σ α : Type) := ExceptT ε (StateM σ) α

namespace Command

variable {ε σ α β : Type} {x : Command ε σ α} {f : α → Command ε σ β} {a : α}
  {b : β} {e : ε} {s t u : σ} {R : σ → σ → Prop}

/-- What a command makes of a state. -/
def exec (x : Command ε σ α) (s : σ) : Except ε α × σ := StateT.run (ExceptT.run x) s

/-- Fail with `e` unless `p` holds. -/
def ensure (p : Prop) [Decidable p] (e : ε) : Command ε σ Unit := if p then pure () else throw e

/-- Run a command where the condition holds. -/
def onlyIf (p : Bool) (x : Command ε σ Unit) : Command ε σ Unit := if p then x else pure ()

/-- `try { x } catch (_) { y }` -/
def attempt (x y : Command ε σ α) : Command ε σ α := tryCatch x fun _ => y

theorem exec_bind : exec (x >>= f) s =
    match exec x s with
    | (.ok a, t) => exec (f a) t
    | (.error e, t) => (.error e, t) := by
  have h : exec (x >>= f) s = StateT.run (ExceptT.bindCont f (exec x s).1) (exec x s).2 := rfl
  rw [h]
  rcases exec x s with ⟨e | a, t⟩ <;> rfl

@[simp] theorem exec_pure : exec (pure a : Command ε σ α) s = (.ok a, s) := rfl

@[simp] theorem exec_throw : exec (throw e : Command ε σ α) s = (.error e, s) := rfl

@[simp] theorem exec_get : exec (get : Command ε σ σ) s = (.ok s, s) := rfl

@[simp] theorem exec_modify {g : σ → σ} :
  exec (modify g : Command ε σ Unit) s = (.ok (), g s) := rfl

@[simp] theorem exec_lift {y : Except ε α} : exec (liftM y : Command ε σ α) s = (y, s) := by
  cases y <;> rfl

@[simp] theorem exec_ensure {p : Prop} [Decidable p] :
    exec (ensure p e : Command ε σ Unit) s = (if p then .ok () else .error e, s) := by
  unfold ensure
  split <;> rfl

theorem exec_attempt {y : Command ε σ α} : exec (attempt x y) s =
    match exec x s with
    | (.ok a, t) => (.ok a, t)
    | (.error _, t) => exec y t := by
  have htry : exec (attempt x y) s = StateT.run (ExceptT.run (ExceptT.tryCatch x fun _ => y)) s :=
    rfl
  rw [htry, ExceptT.tryCatch, ExceptT.run_mk, StateT.run_bind]
  unfold exec
  rcases hx : StateT.run (ExceptT.run x) s with ⟨e | a, t⟩ <;>
    (change StateT.run x s = _ at hx; simp only [hx]; rfl)

/-- A sequence fails at its first command, or runs on from what that one leaves. -/
theorem exec_bind_cases {r : Except ε β} (h : exec (x >>= f) s = (r, t)) :
    (∃ e, exec x s = (.error e, t) ∧ r = .error e) ∨
      ∃ a u, exec x s = (.ok a, u) ∧ exec (f a) u = (r, t) := by
  rw [exec_bind] at h
  rcases hx : exec x s with ⟨e | a, u⟩ <;> rw [hx] at h
  · cases h
    exact Or.inl ⟨e, rfl, rfl⟩
  · exact Or.inr ⟨a, u, rfl, h⟩

@[simp] theorem exec_get_bind {f : σ → Command ε σ β} : exec (get >>= f) s = exec (f s) s := rfl

@[simp] theorem exec_modify_bind {g : σ → σ} {f : Unit → Command ε σ β} :
    exec (modify g >>= f) s = exec (f ()) (g s) := rfl

theorem exec_bind_of (hx : exec x s = (.ok a, t)) : exec (x >>= f) s = exec (f a) t := by
  rw [exec_bind, hx]

theorem exec_ensure_bind {p : Prop} [Decidable p] {f : Unit → Command ε σ β} (hp : p) :
    exec (ensure p e >>= f) s = exec (f ()) s :=
  exec_bind_of (by rw [exec_ensure, if_pos hp])

theorem exec_ensure_bind_cases {p : Prop} [Decidable p] {f : Unit → Command ε σ β} {r : Except ε β}
    (h : exec (ensure p e >>= f) s = (r, t)) :
    (¬ p ∧ r = .error e ∧ t = s) ∨ (p ∧ exec (f ()) s = (r, t)) := by
  by_cases hp : p <;> simp only [exec_bind, exec_ensure, if_pos, if_neg, hp, not_false_eq_true] at h
  · exact Or.inr ⟨hp, h⟩
  · cases h
    exact Or.inl ⟨hp, rfl, rfl⟩

theorem exec_lift_bind_cases {y : Except ε α} {r : Except ε β}
    (h : exec (liftM y >>= f) s = (r, t)) :
    (∃ e, y = .error e ∧ r = .error e ∧ t = s) ∨ ∃ a, y = .ok a ∧ exec (f a) s = (r, t) := by
  rw [exec_bind, exec_lift] at h
  cases y with
  | error e =>
    cases h
    exact Or.inl ⟨e, rfl, rfl, rfl⟩
  | ok a => exact Or.inr ⟨a, rfl, h⟩

theorem exec_bind_ok : exec (x >>= f) s = (.ok b, t) ↔
    ∃ a u, exec x s = (.ok a, u) ∧ exec (f a) u = (.ok b, t) := by
  constructor
  · intro h
    rcases exec_bind_cases h with ⟨e, -, h⟩ | h
    · cases h
    · exact h
  · rintro ⟨a, u, hx, hf⟩
    rw [exec_bind, hx]
    exact hf

/-- The command takes every state to a related one, also when it fails. -/
def Within (R : σ → σ → Prop) (x : Command ε σ α) : Prop := ∀ s, R s (exec x s).2

section Rules
variable (hrefl : ∀ s, R s s)
include hrefl

theorem within_pure : Within R (pure a : Command ε σ α) := hrefl

theorem within_throw : Within R (throw e : Command ε σ α) := hrefl

theorem within_get : Within R (get : Command ε σ σ) := hrefl

theorem within_lift {y : Except ε α} : Within R (liftM y : Command ε σ α) := by
  intro s
  rw [exec_lift]
  exact hrefl s

theorem within_ensure {p : Prop} [Decidable p] : Within R (ensure p e : Command ε σ Unit) := by
  intro s
  rw [exec_ensure]
  exact hrefl s

theorem within_onlyIf {p : Bool} {x : Command ε σ Unit} (hx : Within R x) :
    Within R (onlyIf p x) := by
  cases p
  · exact within_pure hrefl
  · exact hx

end Rules

/-- From one state: the first command leads to a related one, the rest does from everywhere. -/
theorem related_bind (htrans : ∀ s t u, R s t → R t u → R s u) (hx : R s (exec x s).2)
    (hf : ∀ a, Within R (f a)) : R s (exec (x >>= f) s).2 := by
  rw [exec_bind]
  rcases hs : exec x s with ⟨e | a, t⟩ <;> rw [hs] at hx
  · exact hx
  · exact htrans _ _ _ hx (hf a t)

/-- As `within_bind`, where the rest is only run from what the first command leaves. -/
theorem within_bind_of (htrans : ∀ s t u, R s t → R t u → R s u) (hx : Within R x)
    (hf : ∀ s a t, exec x s = (.ok a, t) → R t (exec (f a) t).2) : Within R (x >>= f) := by
  intro s
  have h := hx s
  rw [exec_bind]
  rcases hs : exec x s with ⟨e | a, t⟩ <;> rw [hs] at h
  · exact h
  · exact htrans _ _ _ h (hf s a t hs)

theorem within_bind (htrans : ∀ s t u, R s t → R t u → R s u) (hx : Within R x)
    (hf : ∀ a, Within R (f a)) : Within R (x >>= f) :=
  within_bind_of htrans hx fun _ a t _ => hf a t

theorem Within.mono {S : σ → σ → Prop} (hm : ∀ s t, R s t → S s t) (h : Within R x) :
    Within S x := fun s => hm _ _ (h s)

theorem Within.exec {r : Except ε α} (h : Within R x) (hs : exec x s = (r, t)) : R s t := by
  have := h s
  rwa [hs] at this

/-! Triples: from a state with `P` a command that returns leaves `Q`, one that fails leaves `E`. -/

def Meets (P : σ → Prop) (x : Command ε σ α) (Q : α → σ → Prop) (E : σ → Prop) : Prop :=
  ∀ s, P s → match exec x s with
    | (.ok a, t) => Q a t
    | (.error _, t) => E t

section Triples
variable {P P' : σ → Prop} {Q Q' : α → σ → Prop} {S : β → σ → Prop} {E : σ → Prop}

theorem meets_bind (hx : Meets P x Q E) (hf : ∀ a, Meets (Q a) (f a) S E) :
    Meets P (x >>= f) S E := by
  intro s hs
  have h := hx s hs
  rw [exec_bind]
  rcases hx' : exec x s with ⟨e | a, t⟩ <;> rw [hx'] at h
  · exact h
  · exact hf a t h

theorem meets_pure (h : ∀ s, P s → Q a s) : Meets P (pure a : Command ε σ α) Q E := h

theorem meets_throw (h : ∀ s, P s → E s) : Meets P (throw e : Command ε σ α) Q E := h

theorem meets_get {Q : σ → σ → Prop} (h : ∀ s, P s → Q s s) : Meets P (get : Command ε σ σ) Q E := h

theorem meets_modify {g : σ → σ} {Q : Unit → σ → Prop} (h : ∀ s, P s → Q () (g s)) :
    Meets P (modify g : Command ε σ Unit) Q E := h

theorem meets_ensure {p : Prop} [Decidable p] {Q : Unit → σ → Prop}
    (h : ∀ s, P s → p → Q () s) (he : ∀ s, P s → E s) :
    Meets P (ensure p e : Command ε σ Unit) Q E := by
  intro s hs
  rw [exec_ensure]
  by_cases hp : p
  · rw [if_pos hp]
    exact h s hs hp
  · rw [if_neg hp]
    exact he s hs

theorem meets_ensure_of {p : Prop} [Decidable p] {Q : Unit → σ → Prop} (hp : p)
    (h : ∀ s, P s → Q () s) : Meets P (ensure p e : Command ε σ Unit) Q E := by
  intro s hs
  rw [exec_ensure, if_pos hp]
  exact h s hs

theorem meets_lift {y : Except ε α} (h : ∀ s a, P s → y = .ok a → Q a s) (he : ∀ s, P s → E s) :
    Meets P (liftM y : Command ε σ α) Q E := by
  intro s hs
  rw [exec_lift]
  cases y with
  | error e => exact he s hs
  | ok a => exact h s a hs rfl

theorem meets_ite {p : Prop} [Decidable p] {y : Command ε σ α} (h : p → Meets P x Q E)
    (h' : ¬ p → Meets P y Q E) : Meets P (if p then x else y) Q E := by
  by_cases hp : p
  · rw [if_pos hp]
    exact h hp
  · rw [if_neg hp]
    exact h' hp

theorem meets_onlyIf {p : Bool} {x : Command ε σ Unit} {Q : Unit → σ → Prop}
    (hx : p = true → Meets P x Q E) (h : ∀ s, P s → Q () s) : Meets P (onlyIf p x) Q E := by
  cases p
  · exact h
  · exact hx rfl

/-- A loop, by what holds with so many elements still to come. -/
theorem meets_forM {f : α → Command ε σ Unit} {P : List α → σ → Prop}
    (h : ∀ a rest, Meets (P (a :: rest)) (f a) (fun _ => P rest) E) (l : List α) :
    Meets (P l) (l.forM f) (fun _ => P []) E := by
  induction l with
  | nil => exact meets_pure fun _ hs => hs
  | cons a rest ih => exact meets_bind (h a rest) fun _ => ih

theorem Meets.imp (h : Meets P x Q E) (hP : ∀ s, P' s → P s) (hQ : ∀ a s, Q a s → Q' a s) :
    Meets P' x Q' E := by
  intro s hs
  have hx := h s (hP s hs)
  rcases hx' : exec x s with ⟨e | a, t⟩ <;> rw [hx'] at hx
  · exact hx
  · exact hQ a t hx

/-- A triple for every state that a fixed fact picks out. -/
theorem meets_of {p : Prop} (h : p → Meets P x Q E) (hp : ∀ s, P s → p) : Meets P x Q E :=
  fun s hs => h (hp s hs) s hs

theorem Meets.ok {s : σ} (h : Meets P x Q E) (hs : P s) (hx : exec x s = (.ok a, t)) : Q a t := by
  have := h s hs
  rwa [hx] at this

/-- However a command ends, both outcomes leave `E`. -/
theorem Meets.always {s : σ} (h : Meets P x Q E) (hs : P s) (hQ : ∀ a t, Q a t → E t) :
    E (exec x s).2 := by
  have hx := h s hs
  rcases hx' : exec x s with ⟨e | a, t⟩ <;> rw [hx'] at hx
  · exact hx
  · exact hQ a t hx

end Triples

end Command
end Foxhole
