import Foxhole.Lib.Check
import Mathlib.Data.List.Induction
import Mathlib.Data.List.Perm.Basic
import Mathlib.Data.List.ReduceOption
import Mathlib.Order.Bounds.Basic
import Mathlib.Order.Defs.Unbundled

/-! The best of a list, kept in one pass, and all those who are level with it. -/
namespace Foxhole.Best

section Keep
variable {α : Type} {better : α → α → Prop} [DecidableRel better] {l : List α} {a b : α}

/-- A row takes the place of the one that is held where none is held or it is better. -/
def keep (better : α → α → Prop) [DecidableRel better] (held : Option α) (a : α) : Option α :=
  match held with
  | none => some a
  | some b => if better a b then some a else some b

def best (better : α → α → Prop) [DecidableRel better] (l : List α) : Option α :=
  l.foldl (keep better) none

theorem best_concat : best better (l ++ [a]) = keep better (best better l) a := by
  simp [best]

theorem best_eq_none : best better l = none ↔ l = [] := by
  induction l using List.reverseRecOn with
  | nil => simp [best]
  | append_singleton l a _ =>
    rw [best_concat]
    unfold keep
    cases best better l with
    | none => simp
    | some b => by_cases hab : better a b <;> simp [hab]

/-- No row is better than the one that is left, whatever the order was. -/
theorem best_spec [IsStrictOrder α better] (h : best better l = some b) :
    b ∈ l ∧ ∀ a ∈ l, ¬ better a b := by
  induction l using List.reverseRecOn generalizing b with
  | nil => cases h
  | append_singleton l c ih =>
    rw [best_concat] at h
    unfold keep at h
    cases hl : best better l with
    | none =>
      rw [hl] at h
      cases h
      have := best_eq_none.1 hl
      subst this
      simpa using irrefl_of better c
    | some d =>
      rw [hl] at h
      obtain ⟨hd, hall⟩ := ih hl
      by_cases hcd : better c d
      · simp only [hcd, if_true, Option.some.injEq] at h
        subst h
        refine ⟨by simp, ?_⟩
        intro a ha hac
        rcases List.mem_append.1 ha with ha | ha
        · exact hall a ha (trans_of better hac hcd)
        · rw [List.mem_singleton.1 ha] at hac
          exact irrefl_of better c hac
      · simp only [hcd, if_false, Option.some.injEq] at h
        subst h
        refine ⟨List.mem_append_left _ hd, ?_⟩
        intro a ha
        rcases List.mem_append.1 ha with ha | ha
        · exact hall a ha
        · rwa [List.mem_singleton.1 ha]

theorem best_lt_spec {κ : Type} [LinearOrder κ] {l : List κ} {k : κ} :
    best (· < ·) l = some k ↔ IsLeast {k | k ∈ l} k := by
  constructor
  · intro h
    obtain ⟨hk, hall⟩ := best_spec h
    exact ⟨hk, fun a ha => not_lt.1 (hall a ha)⟩
  · rintro ⟨hk, hall⟩
    cases h : best (· < ·) l with
    | none =>
      rw [best_eq_none.1 h] at hk
      cases hk
    | some j =>
      obtain ⟨hj, hmin⟩ := best_spec h
      exact congrArg some (le_antisymm (not_lt.1 (hmin k hk)) (hall hj))

end Keep

section Race
variable {κ β : Type} [LinearOrder κ] [DecidableEq β] {rows : List (κ × β)} {row : κ × β} {b : β}

/-- The best key so far and the names that came with it. -/
structure Race (κ β : Type) where
  best : Option κ
  names : List β

def Race.start : Race κ β := ⟨none, []⟩

/-- A better key drops the names that are held, a key that is level adds a name that is new. -/
def Race.enter (race : Race κ β) (row : κ × β) : Race κ β :=
  let race := if ∀ k ∈ race.best, row.1 < k then ⟨some row.1, []⟩ else race
  if race.best = some row.1 ∧ row.2 ∉ race.names then { race with names := race.names ++ [row.2] }
  else race

/-- The name stands beside the least key. -/
def Leads (rows : List (κ × β)) (b : β) : Prop := ∃ k, (k, b) ∈ rows ∧ ∀ row ∈ rows, k ≤ row.1

/-- What has been kept of the rows that went by. -/
structure Race.Of (rows : List (κ × β)) (race : Race κ β) : Prop where
  empty : race.best = none → rows = []
  least : ∀ k ∈ race.best, (∃ b, (k, b) ∈ rows) ∧ ∀ row ∈ rows, k ≤ row.1
  nodup : race.names.Nodup
  names : ∀ b, b ∈ race.names ↔ ∃ k ∈ race.best, (k, b) ∈ rows

theorem Race.enter_ahead {race : Race κ β} {k : κ} (h : ∀ j ∈ race.best, k < j) :
    race.enter (k, b) = ⟨some k, [b]⟩ := by
  unfold Race.enter
  rw [if_pos h]
  simp

theorem Race.enter_level {race : Race κ β} {j k : κ} (hr : race.best = some j) (h : j ≤ k) :
    race.enter (k, b) =
      if j = k ∧ b ∉ race.names then ⟨some j, race.names ++ [b]⟩ else race := by
  have hn : ¬ ∀ i ∈ race.best, k < i := by simpa [hr] using h
  unfold Race.enter
  simp only [if_neg hn]
  simp only [hr, Option.some.injEq]

theorem Race.Of.enter {race : Race κ β} (h : race.Of rows) :
    (race.enter row).Of (rows ++ [row]) := by
  obtain ⟨k, c⟩ := row
  by_cases hk : ∀ j ∈ race.best, k < j
  · rw [Race.enter_ahead hk]
    refine ⟨by simp, ?_, by simp, ?_⟩
    · rintro j ⟨⟩
      refine ⟨⟨c, by simp⟩, ?_⟩
      intro row hrow
      rcases List.mem_append.1 hrow with hrow | hrow
      · cases hb : race.best with
        | none =>
          rw [h.empty hb] at hrow
          cases hrow
        | some j => exact (hk j hb).le.trans ((h.least j hb).2 row hrow)
      · rw [List.mem_singleton.1 hrow]
    · intro b
      constructor
      · intro hb
        exact ⟨k, rfl, by simp [List.mem_singleton.1 hb]⟩
      · rintro ⟨j, ⟨⟩, hb⟩
        rcases List.mem_append.1 hb with hb | hb
        · cases hr : race.best with
          | none =>
            rw [h.empty hr] at hb
            cases hb
          | some j => exact absurd ((h.least j hr).2 _ hb) (not_le.2 (hk j hr))
        · simpa using hb
  · cases hr : race.best with
    | none => simp [hr] at hk
    | some j =>
      have hjk : j ≤ k := by simpa [hr] using hk
      obtain ⟨⟨d, hd⟩, hmin⟩ := h.least j hr
      have hleast : ∀ row ∈ rows ++ [(k, c)], j ≤ row.1 := by
        intro row hrow
        rcases List.mem_append.1 hrow with hrow | hrow
        · exact hmin row hrow
        · rwa [List.mem_singleton.1 hrow]
      have hnames : ∀ b, b ∈ race.names ↔ (j, b) ∈ rows := by
        intro b
        rw [h.names, hr]
        simp
      by_cases hadd : j = k ∧ c ∉ race.names
      · obtain ⟨rfl, hc⟩ := hadd
        rw [Race.enter_level hr hjk, if_pos ⟨rfl, hc⟩]
        refine ⟨by simp, ?_, ?_, ?_⟩
        · rintro i ⟨⟩
          exact ⟨⟨d, List.mem_append_left _ hd⟩, hleast⟩
        · exact h.nodup.append (by simp) (by simpa using hc)
        · intro b
          simp [hnames, or_comm]
      · rw [Race.enter_level hr hjk, if_neg hadd]
        refine ⟨by simp [hr], ?_, h.nodup, ?_⟩
        · intro i hi
          rw [hr] at hi
          cases hi
          exact ⟨⟨d, List.mem_append_left _ hd⟩, hleast⟩
        · intro b
          rw [hnames, hr]
          simp only [Option.mem_some_iff, exists_eq_left', List.mem_append, List.mem_singleton,
            Prod.mk.injEq]
          refine ⟨Or.inl, ?_⟩
          rintro (hb | ⟨rfl, rfl⟩)
          · exact hb
          · by_contra hn
            exact hadd ⟨rfl, fun hmem => hn ((hnames b).1 hmem)⟩

theorem Race.of_run : (rows.foldl Race.enter Race.start).Of rows := by
  induction rows using List.reverseRecOn with
  | nil => exact ⟨fun _ => rfl, by simp [Race.start], by simp [Race.start], by simp [Race.start]⟩
  | append_singleton rows row ih =>
    rw [List.foldl_append]
    exact ih.enter

/-- The names at the end are those beside the least key, once each. -/
theorem Race.mem_names : b ∈ (rows.foldl Race.enter Race.start).names ↔ Leads rows b := by
  have h : (rows.foldl Race.enter Race.start).Of rows := Race.of_run
  rw [h.names]
  constructor
  · rintro ⟨k, hk, hb⟩
    exact ⟨k, hb, (h.least k hk).2⟩
  · rintro ⟨k, hb, hmin⟩
    cases hr : (rows.foldl Race.enter Race.start).best with
    | none =>
      rw [h.empty hr] at hb
      cases hb
    | some j =>
      obtain ⟨⟨d, hd⟩, hj⟩ := h.least j hr
      have : j = k := le_antisymm (hj _ hb) (hmin _ hd)
      exact ⟨j, rfl, this ▸ hb⟩

theorem Race.nodup_names : (rows.foldl Race.enter Race.start).names.Nodup := Race.of_run.nodup

end Race

/-- A round that goes on to the next where its row brings nothing. -/
def skipping {β γ : Type} (f : γ → β → γ) (c : γ) : Option β → γ
  | some b => f c b
  | none => c

theorem foldl_skipping {β γ : Type} {f : γ → β → γ} {rows : List (Option β)} {c : γ} :
    rows.foldl (skipping f) c = rows.reduceOption.foldl f c := by
  induction rows generalizing c with
  | nil => rfl
  | cons row rows ih =>
    cases row with
    | none => simpa [skipping] using ih
    | some b => simpa [skipping] using ih

/-- A loop whose rounds look at their own row before they touch what is held. -/
theorem foldlM_rounds {ε α β γ : Type} {f : α → Except ε β} {g : γ → β → Except ε γ} {l : List α}
    {c d : γ} : l.foldlM (fun c a => do g c (← f a)) c = .ok d ↔
      ∃ bs, l.mapM f = .ok bs ∧ bs.foldlM g c = .ok d := by
  induction l generalizing c with
  | nil => simp
  | cons a l ih =>
    simp only [List.foldlM_cons, List.mapM_cons, Check.bind_eq_ok, Check.pure_eq_ok]
    constructor
    · rintro ⟨e, ⟨b, hb, he⟩, h⟩
      obtain ⟨bs, hbs, h⟩ := ih.1 h
      refine ⟨b :: bs, ⟨b, hb, bs, hbs, rfl⟩, ?_⟩
      simp only [List.foldlM_cons, Check.bind_eq_ok]
      exact ⟨e, he, h⟩
    · rintro ⟨_, ⟨b, hb, bs, hbs, rfl⟩, h⟩
      simp only [List.foldlM_cons, Check.bind_eq_ok] at h
      obtain ⟨e, he, h⟩ := h
      exact ⟨e, ⟨b, hb, he⟩, ih.2 ⟨bs, hbs, h⟩⟩

theorem foldlM_bind_eq_ok {ε α β γ : Type} {f : α → Except ε β} {g : γ → β → γ} {l : List α}
    {c d : γ} : l.foldlM (fun c a => do return g c (← f a)) c = .ok d ↔
      ∃ bs, l.mapM f = .ok bs ∧ bs.foldl g c = d := by
  rw [foldlM_rounds]
  have hplain (bs : List β) : bs.foldlM (fun c b => (pure (g c b) : Except ε γ)) c =
      .ok (bs.foldl g c) := Check.foldlM_eq_foldl fun _ _ _ => rfl
  simp only [hplain, Except.ok.injEq]

section Order
variable {α : Type} {related : α → α → Prop} {l l' : List α} {a : α}

/-- The rows in another order, each replaced by one that is related to it. -/
def Reordered (related : α → α → Prop) (l l' : List α) : Prop :=
  ∃ middle, List.Forall₂ related l middle ∧ middle.Perm l'

theorem Reordered.length_eq (h : Reordered related l l') : l.length = l'.length := by
  obtain ⟨middle, hrelated, hperm⟩ := h
  exact hrelated.length_eq.trans hperm.length_eq

theorem Reordered.symm (hsymm : ∀ a b, related a b → related b a) (h : Reordered related l l') :
    Reordered related l' l := by
  obtain ⟨middle, hrelated, hperm⟩ := h
  obtain ⟨other, hother, hperm'⟩ := List.perm_comp_forall₂ hperm.symm hrelated.flip
  exact ⟨other, hother.imp fun a b => hsymm b a, hperm'⟩

theorem Reordered.exists_left (h : Reordered related l l') (ha : a ∈ l) :
    ∃ b ∈ l', related a b := by
  obtain ⟨middle, hrelated, hperm⟩ := h
  obtain ⟨i, hi, rfl⟩ := List.getElem_of_mem ha
  have hi' : i < middle.length := hrelated.length_eq ▸ hi
  exact ⟨middle[i], hperm.mem_iff.1 (List.getElem_mem hi'), hrelated.get hi hi'⟩

theorem Reordered.exists_right (h : Reordered related l l') (ha : a ∈ l') :
    ∃ b ∈ l, related b a := by
  obtain ⟨middle, hrelated, hperm⟩ := h
  obtain ⟨i, hi, rfl⟩ := List.getElem_of_mem (hperm.mem_iff.2 ha)
  have hi' : i < l.length := hrelated.length_eq ▸ hi
  exact ⟨l[i], List.getElem_mem hi', hrelated.get hi' hi⟩

end Order

end Foxhole.Best
