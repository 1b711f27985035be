import Mathlib.Logic.Function.Basic
import Mathlib.Logic.Relation
import Mathlib.Tactic.Common

/-! Programs that run interleaved on one state, an operation at a time, and may be killed. -/
namespace Threads

/-- A program: it returns, or does an operation and goes on with the answer. -/
inductive Prog (ω : Type) (ρ : ω → Type) (α : Type) where
  | ret (a : α)
  | op (o : ω) (next : ρ o → Prog ω ρ α)

variable {ω : Type} {ρ : ω → Type} {α β γ ε σ : Type}

def Prog.bind : Prog ω ρ α → (α → Prog ω ρ β) → Prog ω ρ β
  | ret a, f => f a
  | op o next, f => op o fun r => (next r).bind f

instance : Monad (Prog ω ρ) where
  pure := .ret
  bind := .bind

def perform (o : ω) : Prog ω ρ (ρ o) := .op o .ret

/-- What a thread was asked for, the state it began in, and what is left of its program; of a
killed one nothing is left. -/
structure Thread (γ σ ω : Type) (ρ : ω → Type) (α : Type) where
  call : γ
  first : σ
  rest : Option (Prog ω ρ α)

structure Config (γ σ ω : Type) (ρ : ω → Type) (α : Type) where
  state : σ
  threads : ℕ → Option (Thread γ σ ω ρ α)

def Config.set (c : Config γ σ ω ρ α) (i : ℕ) (thread : Thread γ σ ω ρ α) : Config γ σ ω ρ α :=
  { c with threads := Function.update c.threads i (some thread) }

theorem Config.set_self (c : Config γ σ ω ρ α) (i : ℕ) (thread : Thread γ σ ω ρ α) :
    (c.set i thread).threads i = some thread := Function.update_self ..

theorem Config.set_of_ne (c : Config γ σ ω ρ α) {i j : ℕ} (thread : Thread γ σ ω ρ α) (h : j ≠ i) :
    (c.set i thread).threads j = c.threads j := Function.update_of_ne h ..

def Config.start (s : σ) : Config γ σ ω ρ α := ⟨s, fun _ => none⟩

/-- `does i s o r t`: thread `i` does `o` in `s`, is answered `r`, and leaves `t`. -/
inductive Step (does : ℕ → σ → (o : ω) → ρ o → σ → Prop) (program : γ → Prog ω ρ α) :
    Config γ σ ω ρ α → Config γ σ ω ρ α → Prop
  | start (c : Config γ σ ω ρ α) (i : ℕ) (call : γ) : c.threads i = none →
    Step does program c (c.set i ⟨call, c.state, some (program call)⟩)
  | act (c : Config γ σ ω ρ α) (i : ℕ) (thread : Thread γ σ ω ρ α) (o : ω)
    (next : ρ o → Prog ω ρ α) (r : ρ o) (t : σ) :
    c.threads i = some thread → thread.rest = some (.op o next) → does i c.state o r t →
    Step does program c (({ c with state := t }).set i { thread with rest := some (next r) })
  | kill (c : Config γ σ ω ρ α) (i : ℕ) (thread : Thread γ σ ω ρ α) : c.threads i = some thread →
    Step does program c (c.set i { thread with rest := none })

/-- A state that calls which start, act and are killed in any order can lead to. -/
def Reachable (does : ℕ → σ → (o : ω) → ρ o → σ → Prop) (program : γ → Prog ω ρ α) (s : σ) :
    Config γ σ ω ρ α → Prop := Relation.ReflTransGen (Step does program) (.start s)

/-- Every operation of the program is one of these. -/
def Prog.Only (quiet : ω → Prop) : Prog ω ρ α → Prop
  | .ret _ => True
  | .op o next => quiet o ∧ ∀ r, (next r).Only quiet

theorem Prog.Only.bind {quiet : ω → Prop} {p : Prog ω ρ α} {f : α → Prog ω ρ β}
    (hp : p.Only quiet) (hf : ∀ a, (f a).Only quiet) : (p.bind f).Only quiet := by
  induction p with
  | ret a => exact hf a
  | op o next ih => exact ⟨hp.1, fun r => ih r (hp.2 r)⟩

section Rules
variable (does : ℕ → σ → (o : ω) → ρ o → σ → Prop) (inv : σ → Prop)
  (rely : ℕ → σ → σ → Prop) (i : ℕ)

/-- What the other threads do does not end it. -/
def Stable (P : σ → Prop) : Prop := ∀ s t, P s → rely i s t → inv t → P t

/-- However the others go on, the program keeps the invariant and what they rely on, `D` holds all
the time, and when it returns `Q` does. -/
def Safe (D : σ → Prop) (Q : α → σ → Prop) : Prog ω ρ α → σ → Prop
  | .ret a, s => ∀ t, rely i s t → inv t → D t ∧ Q a t
  | .op o next, s => ∀ t, rely i s t → inv t → D t ∧ ∀ r u, does i t o r u →
      inv u ∧ (∀ j, j ≠ i → rely j t u) ∧ Safe D Q (next r) u

/-- Relying on others is relying on none of them, or on one after the other. -/
structure Relies (rely : ℕ → σ → σ → Prop) : Prop where
  refl : ∀ i s, rely i s s
  trans : ∀ i s t u, rely i s t → rely i t u → rely i s u

variable {does inv rely i} {D : σ → Prop} {Q : α → σ → Prop} {Q' : β → σ → Prop}
  {p : Prog ω ρ α} {a : α} {s t : σ}

theorem Stable.and {P P' : σ → Prop} (h : Stable inv rely i P) (h' : Stable inv rely i P') :
    Stable inv rely i fun s => P s ∧ P' s :=
  fun s t hP hr ht => ⟨h s t hP.1 hr ht, h' s t hP.2 hr ht⟩

theorem Stable.or {P P' : σ → Prop} (h : Stable inv rely i P) (h' : Stable inv rely i P') :
    Stable inv rely i fun s => P s ∨ P' s :=
  fun s t hP hr ht => hP.imp (fun hP => h s t hP hr ht) fun hP => h' s t hP hr ht

theorem Safe.later (hrely : Relies rely) (h : Safe does inv rely i D Q p s) (hr : rely i s t) :
    Safe does inv rely i D Q p t := by
  cases p with
  | ret a => exact fun u hu => h u (hrely.trans _ _ _ _ hr hu)
  | op o next => exact fun u hu => h u (hrely.trans _ _ _ _ hr hu)

theorem Safe.meanwhile (hrely : Relies rely) (h : Safe does inv rely i D Q p s) (hs : inv s) :
    D s := by
  cases p with
  | ret a => exact (h s (hrely.refl _ _) hs).1
  | op o next => exact (h s (hrely.refl _ _) hs).1

theorem Safe.returned (hrely : Relies rely) (h : Safe does inv rely i D Q (.ret a) s) (hs : inv s) :
    Q a s := (h s (hrely.refl _ _) hs).2

theorem safe_ret {P : σ → Prop} (hP : Stable inv rely i P) (hD : ∀ s, P s → D s)
    (hQ : ∀ s, P s → Q a s) (hs : P s) : Safe does inv rely i D Q (.ret a) s :=
  fun t hr ht => ⟨hD t (hP s t hs hr ht), hQ t (hP s t hs hr ht)⟩

theorem safe_bind (hrely : Relies rely) {f : α → Prog ω ρ β} (hs : inv s)
    (h : Safe does inv rely i D Q p s)
    (hf : ∀ a t, inv t → Q a t → Safe does inv rely i D Q' (f a) t) :
    Safe does inv rely i D Q' (p.bind f) s := by
  induction p generalizing s with
  | ret a => exact hf a s hs (h.returned hrely hs)
  | op o next ih =>
    intro t hr ht
    obtain ⟨hd, hact⟩ := h t hr ht
    refine ⟨hd, fun r u hu => ?_⟩
    obtain ⟨hinv, hothers, hnext⟩ := hact r u hu
    exact ⟨hinv, hothers, ih r hinv hnext⟩

/-- An operation, from what is stable up to it. -/
theorem safe_op {o : ω} {next : ρ o → Prog ω ρ α} {P : σ → Prop} (hP : Stable inv rely i P)
    (hD : ∀ s, P s → D s) (hs : P s)
    (hact : ∀ t r u, inv t → P t → does i t o r u →
      inv u ∧ (∀ j, j ≠ i → rely j t u) ∧ Safe does inv rely i D Q (next r) u) :
    Safe does inv rely i D Q (.op o next) s := by
  intro t hr ht
  have hPt := hP s t hs hr ht
  exact ⟨hD t hPt, fun r u hu => hact t r u ht hPt hu⟩

/-- A program of operations that all threads rely on keeps what is stable. -/
theorem safe_quiet {quiet : ω → Prop} {P : σ → Prop}
    (hquiet : ∀ o, quiet o → ∀ s r t, inv s → does i s o r t → inv t ∧ ∀ j, rely j s t)
    (hP : Stable inv rely i P) (hD : ∀ s, P s → D s) (hp : p.Only quiet) (hs : P s) :
    Safe does inv rely i D (fun _ => P) p s := by
  induction p generalizing s with
  | ret a => exact fun t hr ht => ⟨hD t (hP s t hs hr ht), hP s t hs hr ht⟩
  | op o next ih =>
    intro t hr ht
    have hPt := hP s t hs hr ht
    refine ⟨hD t hPt, fun r u hu => ?_⟩
    obtain ⟨hinv, hall⟩ := hquiet o hp.1 t r u ht hu
    exact ⟨hinv, fun j _ => hall j, ih r (hp.2 r) (hP t u hPt (hall i) hinv)⟩

end Rules

/-! Programs that may fail. -/
section Except
variable {does : ℕ → σ → (o : ω) → ρ o → σ → Prop} {inv : σ → Prop}
  {rely : ℕ → σ → σ → Prop} {i : ℕ}
  {D : σ → Prop} {x : ExceptT ε (Prog ω ρ) α} {f : α → ExceptT ε (Prog ω ρ) β} {s : σ}
  {Q : Except ε α → σ → Prop} {Q' : Except ε β → σ → Prop}

/-- What holds after a value, and after an error. -/
def Ends (P : α → σ → Prop) (E : σ → Prop) : Except ε α → σ → Prop
  | .ok a, s => P a s
  | .error _, s => E s

theorem Prog.Only.then {quiet : ω → Prop} (hx : x.run.Only quiet) (hf : ∀ a, (f a).run.Only quiet) :
    (x >>= f).run.Only quiet := by
  refine Prog.Only.bind (p := x.run) hx fun r => ?_
  cases r with
  | ok a => exact hf a
  | error e => trivial

theorem safe_then (hrely : Relies rely) (hs : inv s) (h : Safe does inv rely i D Q x.run s)
    (hok : ∀ a t, inv t → Q (.ok a) t → Safe does inv rely i D Q' (f a).run t)
    (herror : ∀ e t, inv t → Q (.error e) t →
      Safe does inv rely i D Q' (.ret (.error e) : Prog ω ρ (Except ε β)) t) :
    Safe does inv rely i D Q' (x >>= f).run s := by
  refine safe_bind (p := x.run) hrely hs h fun r t ht hr => ?_
  cases r with
  | ok a => exact hok a t ht hr
  | error e => exact herror e t ht hr

theorem safe_caught (hrely : Relies rely) {g : ε → ExceptT ε (Prog ω ρ) α} (hs : inv s)
    {R : Except ε α → σ → Prop} (h : Safe does inv rely i D Q x.run s)
    (hok : ∀ a t, inv t → Q (.ok a) t →
      Safe does inv rely i D R (.ret (.ok a) : Prog ω ρ (Except ε α)) t)
    (herror : ∀ e t, inv t → Q (.error e) t → Safe does inv rely i D R (g e).run t) :
    Safe does inv rely i D R (tryCatch x g).run s := by
  refine safe_bind (p := x.run) hrely hs h fun r t ht hr => ?_
  cases r with
  | ok a => exact hok a t ht hr
  | error e => exact herror e t ht hr

end Except

/-! What holds of every reachable configuration. -/
section Reach
variable {does : ℕ → σ → (o : ω) → ρ o → σ → Prop} {program : γ → Prog ω ρ α} {inv : σ → Prop}
  {rely : ℕ → σ → σ → Prop} {D : ℕ → γ → σ → σ → Prop} {Q : ℕ → γ → σ → α → σ → Prop}
  {s : σ} {c c' : Config γ σ ω ρ α}

/-- The thread is on its way to what it has to meet, or was killed on it. -/
def Thread.OnWay (does : ℕ → σ → (o : ω) → ρ o → σ → Prop) (inv : σ → Prop)
    (rely : ℕ → σ → σ → Prop) (D : ℕ → γ → σ → σ → Prop) (Q : ℕ → γ → σ → α → σ → Prop) (i : ℕ)
    (thread : Thread γ σ ω ρ α) (s : σ) : Prop :=
  match thread.rest with
  | some p => Safe does inv rely i (D i thread.call thread.first) (Q i thread.call thread.first) p s
  | none => D i thread.call thread.first s

theorem onWay_set {i : ℕ} {thread : Thread γ σ ω ρ α} {t : σ}
    (hi : thread.OnWay does inv rely D Q i t)
    (hothers : ∀ j thread, j ≠ i → c.threads j = some thread → thread.OnWay does inv rely D Q j t)
    (j : ℕ) (thread' : Thread γ σ ω ρ α) (hj : (c.set i thread).threads j = some thread') :
    thread'.OnWay does inv rely D Q j t := by
  by_cases hji : j = i
  · subst hji
    rw [Config.set_self] at hj
    cases hj
    exact hi
  · rw [Config.set_of_ne c thread hji] at hj
    exact hothers j thread' hji hj

/-- What is left of each call stays safe when every call is safe by itself. -/
theorem reachable_safe (hrely : Relies rely)
    (hprogram : ∀ i call s, inv s →
      Safe does inv rely i (D i call s) (Q i call s) (program call) s)
    (hD : ∀ i call s, Stable inv rely i (D i call s)) (hs : inv s)
    (h : Reachable does program s c) : inv c.state ∧
      ∀ i thread, c.threads i = some thread → thread.OnWay does inv rely D Q i c.state := by
  induction h with
  | refl => exact ⟨hs, fun i thread h => by cases h⟩
  | tail _ hstep ih =>
    obtain ⟨hinv, hall⟩ := ih
    cases hstep with
    | start i call hnew =>
      exact ⟨hinv, onWay_set (hprogram i call _ hinv) fun j thread _ hj => hall j thread hj⟩
    | act i thread o next r t hi hrest hdoes =>
      have hsafe := hall i thread hi
      rw [Thread.OnWay, hrest] at hsafe
      obtain ⟨-, hact⟩ := hsafe _ (hrely.refl _ _) hinv
      obtain ⟨hinv', hothers, hnext⟩ := hact r t hdoes
      refine ⟨hinv', onWay_set hnext fun j thread' hji hj => ?_⟩
      have hway := hall j thread' hj
      unfold Thread.OnWay at hway ⊢
      cases hrest' : thread'.rest with
      | none =>
        simp only [hrest'] at hway ⊢
        exact hD j _ _ _ _ hway (hothers j hji) hinv'
      | some p =>
        simp only [hrest'] at hway ⊢
        exact hway.later hrely (hothers j hji)
    | kill i thread hi =>
      refine ⟨hinv, onWay_set ?_ fun j thread _ hj => hall j thread hj⟩
      have hway := hall i thread hi
      unfold Thread.OnWay at hway ⊢
      cases hrest : thread.rest with
      | none =>
        simp only [hrest] at hway
        exact hway
      | some p =>
        simp only [hrest] at hway
        have hmeanwhile := hway.meanwhile hrely hinv
        exact hmeanwhile

theorem reachable_meanwhile (hrely : Relies rely) (h : inv c.state ∧
      ∀ i thread, c.threads i = some thread → thread.OnWay does inv rely D Q i c.state)
    {i : ℕ} {thread : Thread γ σ ω ρ α} (hi : c.threads i = some thread) :
    D i thread.call thread.first c.state := by
  have hway := h.2 i thread hi
  unfold Thread.OnWay at hway
  cases hrest : thread.rest with
  | none => simpa only [hrest] using hway
  | some p =>
    simp only [hrest] at hway
    exact hway.meanwhile hrely h.1

theorem reachable_returned (hrely : Relies rely) (h : inv c.state ∧
      ∀ i thread, c.threads i = some thread → thread.OnWay does inv rely D Q i c.state)
    {i : ℕ} {thread : Thread γ σ ω ρ α} (hi : c.threads i = some thread) {a : α}
    (hrest : thread.rest = some (.ret a)) : Q i thread.call thread.first a c.state := by
  have hway := h.2 i thread hi
  unfold Thread.OnWay at hway
  simp only [hrest] at hway
  exact hway.returned hrely h.1

end Reach

/-! A program that runs alone. -/
section Alone
variable {δ : Type} {does : ℕ → σ → (o : ω) → ρ o → σ → Prop} {program : γ → Prog ω ρ α}
  {answer : (o : ω) → δ → ρ o × δ} {s : σ}

/-- Run it to its end, each operation being answered. -/
def Prog.exec (answer : (o : ω) → δ → ρ o × δ) : Prog ω ρ α → δ → α × δ
  | .ret a, d => (a, d)
  | .op o next, d => (next (answer o d).1).exec answer (answer o d).2

theorem Prog.exec_bind (p : Prog ω ρ α) (f : α → Prog ω ρ β) (d : δ) :
    (p.bind f).exec answer d = (f (p.exec answer d).1).exec answer (p.exec answer d).2 := by
  induction p generalizing d with
  | ret a => rfl
  | op o next ih => exact ih _ _

/-- It ends with the value `a` and leaves `d'`. -/
def Ran (answer : (o : ω) → δ → ρ o × δ) (x : ExceptT ε (Prog ω ρ) α) (d : δ) (a : α) (d' : δ) :
    Prop := x.run.exec answer d = (.ok a, d')

theorem Ran.bind {x : ExceptT ε (Prog ω ρ) α} {f : α → ExceptT ε (Prog ω ρ) β} {d d' d'' : δ}
    {a : α} {b : β} (hx : Ran answer x d a d') (hf : Ran answer (f a) d' b d'') :
    Ran answer (x >>= f) d b d'' := by
  refine (Prog.exec_bind x.run _ d).trans ?_
  unfold Ran at hx
  rw [hx]
  exact hf

theorem Ran.caught {x : ExceptT ε (Prog ω ρ) α} {g : ε → ExceptT ε (Prog ω ρ) α} {d d' : δ} {a : α}
    (hx : Ran answer x d a d') : Ran answer (tryCatch x g) d a d' := by
  refine (Prog.exec_bind x.run _ d).trans ?_
  unfold Ran at hx
  rw [hx]
  rfl

/-- A thread can run to its end while the others rest, on a state kept good. -/
theorem reachable_exec {c : Config γ σ ω ρ α} {i : ℕ} {thread : Thread γ σ ω ρ α} (view : δ → σ)
    {good : δ → Prop} (hanswer : ∀ o d, good d →
      does i (view d) o (answer o d).1 (view (answer o d).2) ∧ good (answer o d).2)
    (h : Reachable does program s c) (hi : c.threads i = some thread) {p : Prog ω ρ α}
    (hrest : thread.rest = some p) {d : δ} (hd : c.state = view d) (hgood : good d) :
    Reachable does program s (({ c with state := view (p.exec answer d).2 }).set i
      { thread with rest := some (.ret (p.exec answer d).1) }) ∧ good (p.exec answer d).2 := by
  induction p generalizing c thread d with
  | ret a =>
    have hsame : ({ c with state := view d } : Config γ σ ω ρ α).set i
        { thread with rest := some (.ret a) } = c := by
      rw [← hd, ← hrest]
      exact congrArg (Config.mk c.state) (by rw [← hi]; exact Function.update_eq_self i c.threads)
    rw [Prog.exec, hsame]
    exact ⟨h, hgood⟩
  | op o next ih =>
    obtain ⟨hdoes, hgood'⟩ := hanswer o d hgood
    have hstep := h.tail (.act c i thread o next _ _ hi hrest (hd ▸ hdoes))
    have hrun := ih (answer o d).1 hstep (Config.set_self _ i _) rfl rfl hgood'
    rw [Prog.exec]
    simpa only [Config.set, Function.update_idem] using hrun

end Alone

end Threads
