import Foxhole.Lib.Check
import Mathlib.Logic.Relation
import Mathlib.Order.Bounds.Defs

/-! The worklist that closes a list of roots under a relation whose targets are read off one
element at a time, and may be refused. -/
namespace Foxhole.Worklist
open Check Relation

variable {ε α : Type}

structure Work (α : Type) where
  wanted : List α
  queued : List α
  todo : List α
deriving DecidableEq

def Work.empty : Work α where
  wanted := []
  queued := []
  todo := []

def enqueue [DecidableEq α] (work : Work α) (a : α) : Work α :=
  if a ∈ work.wanted ∨ a ∈ work.queued then work
  else { work with queued := a :: work.queued, todo := work.todo ++ [a] }

def visit [DecidableEq α] (next : α → Except ε (List α)) (work : Work α) (a : α) :
    Except ε (Work α) :=
  if a ∈ work.wanted then .ok work
  else do
    let targets ← next a
    return targets.foldl enqueue { work with wanted := a :: work.wanted }

/-- Visit what is to do in turn, `room` elements at most. -/
def explore [DecidableEq α] (next : α → Except ε (List α)) (full : ε) :
    ℕ → Work α → Except ε (Work α)
  | _, ⟨wanted, queued, []⟩ => .ok ⟨wanted, queued, []⟩
  | 0, _ => .error full
  | room + 1, ⟨wanted, queued, a :: todo⟩ => do
    let work ← visit next ⟨wanted, queued, todo⟩ a
    explore next full room work

/-- `b` is among the targets of `a`. -/
def Edge (next : α → Except ε (List α)) (a b : α) : Prop :=
  ∃ targets, next a = .ok targets ∧ b ∈ targets

def Reached (next : α → Except ε (List α)) (roots : List α) (a : α) : Prop :=
  ∃ r ∈ roots, ReflTransGen (Edge next) r a

/-- Sets with the roots that are closed under the targets. -/
def Closed (targets : α → Set α) (roots : Set α) : Set (Set α) :=
  {s | roots ⊆ s ∧ ∀ a ∈ s, targets a ⊆ s}

section
variable {next : α → Except ε (List α)} {full : ε} {room : ℕ} {roots targets : List α} {a b : α}
  {work done : Work α}

/-- Visited or still to be visited. -/
def Work.Has (work : Work α) (a : α) : Prop := a ∈ work.wanted ∨ a ∈ work.todo

/-- The loop invariant. -/
structure Work.Sound (next : α → Except ε (List α)) (roots : List α) (work : Work α) : Prop where
  queued : ∀ a ∈ work.queued, work.Has a
  started : ∀ a ∈ roots, work.Has a
  targets : ∀ a ∈ work.wanted, ∃ targets, next a = .ok targets ∧ ∀ b ∈ targets, work.Has b
  reached : ∀ a, work.Has a → Reached next roots a

theorem Reached.step (h : Reached next roots a) (hnext : next a = .ok targets)
    (hb : b ∈ targets) : Reached next roots b := by
  obtain ⟨r, hr, hpath⟩ := h
  exact ⟨r, hr, hpath.tail ⟨targets, hnext, hb⟩⟩

/-- A closed set has what its roots lead to. -/
theorem mem_of_closed {requires : α → Set α} {start s : Set α} (h : s ∈ Closed requires start)
    (ha : a ∈ start) (hpath : ReflTransGen (fun a b => b ∈ requires a) a b) : b ∈ s := by
  induction hpath with
  | refl => exact h.1 ha
  | tail _ hedge ih => exact h.2 _ ih hedge

variable [DecidableEq α]

theorem enqueue_wanted : (enqueue work a).wanted = work.wanted := by
  unfold enqueue
  split <;> rfl

theorem foldl_enqueue_wanted : (targets.foldl enqueue work).wanted = work.wanted := by
  induction targets generalizing work with
  | nil => rfl
  | cons a targets ih => rw [List.foldl_cons, ih, enqueue_wanted]

theorem Work.Has.enqueue (h : work.Has b) : (enqueue work a).Has b := by
  unfold Worklist.enqueue
  split
  · exact h
  · exact h.imp id (List.mem_append_left _)

theorem has_enqueue (h : (enqueue work a).Has b) : work.Has b ∨ b = a := by
  unfold enqueue at h
  split at h
  · exact Or.inl h
  · rcases h with h | h
    · exact Or.inl (Or.inl h)
    · rcases List.mem_append.1 h with h | h
      · exact Or.inl (Or.inr h)
      · exact Or.inr (List.mem_singleton.1 h)

theorem enqueue_queued (h : ∀ b ∈ work.queued, work.Has b) :
    ∀ b ∈ (enqueue work a).queued, (enqueue work a).Has b := by
  intro b hb
  have hb' : b ∈ work.queued ∨ b = a ∧ ¬ (a ∈ work.wanted ∨ a ∈ work.queued) := by
    unfold enqueue at hb
    split at hb
    · exact Or.inl hb
    · exact (List.mem_cons.1 hb).symm.imp id fun he => ⟨he, ‹_›⟩
  rcases hb' with hb' | ⟨rfl, hnew⟩
  · exact (h b hb').enqueue
  · rw [enqueue, if_neg hnew]
    exact Or.inr (by simp)

/-- What has been queued is there. -/
theorem enqueue_has (h : ∀ b ∈ work.queued, work.Has b) : (enqueue work a).Has a := by
  by_cases hold : a ∈ work.wanted ∨ a ∈ work.queued
  · rw [enqueue, if_pos hold]
    exact hold.elim Or.inl (h a)
  · rw [enqueue, if_neg hold]
    exact Or.inr (by simp)

theorem foldl_enqueue_has (targets : List α) (h : ∀ b ∈ work.queued, work.Has b) :
    (∀ b ∈ (targets.foldl enqueue work).queued, (targets.foldl enqueue work).Has b) ∧
    ∀ b, (targets.foldl enqueue work).Has b ↔ work.Has b ∨ b ∈ targets := by
  induction targets generalizing work with
  | nil => exact ⟨h, by simp⟩
  | cons a targets ih =>
    obtain ⟨hqueued, hhas⟩ := ih (enqueue_queued (a := a) h)
    refine ⟨hqueued, fun b => (hhas b).trans ?_⟩
    have hstep : (enqueue work a).Has b ↔ work.Has b ∨ b = a := by
      refine ⟨has_enqueue, ?_⟩
      rintro (hb | rfl)
      · exact hb.enqueue
      · exact enqueue_has h
    rw [hstep, List.mem_cons, or_assoc]

theorem sound_roots : (roots.foldl enqueue Work.empty).Sound next roots := by
  have hempty : ∀ b ∈ (Work.empty : Work α).queued, (Work.empty : Work α).Has b := by
    simp [Work.empty]
  obtain ⟨hqueued, hhas⟩ := foldl_enqueue_has roots hempty
  have hnone : ∀ b, ¬ (Work.empty : Work α).Has b := by simp [Work.empty, Work.Has]
  refine ⟨hqueued, fun a ha => (hhas a).2 (Or.inr ha), ?_, fun a ha => ?_⟩
  · rw [foldl_enqueue_wanted]
    simp [Work.empty]
  · exact ⟨a, ((hhas a).1 ha).resolve_left (hnone a), .refl⟩

/-- One round of the loop. -/
theorem Work.Sound.visit {wanted queued todo : List α}
    (h : Work.Sound next roots ⟨wanted, queued, a :: todo⟩)
    (hvisit : visit next ⟨wanted, queued, todo⟩ a = .ok done) : done.Sound next roots := by
  have hmem : ∀ b, Work.Has ⟨wanted, queued, a :: todo⟩ b ↔
      Work.Has ⟨wanted, queued, todo⟩ b ∨ b = a := by
    intro b
    simp only [Work.Has, List.mem_cons]
    tauto
  have ha : Reached next roots a := h.reached a ((hmem a).2 (Or.inr rfl))
  unfold Worklist.visit at hvisit
  split at hvisit
  · rename_i hold
    obtain rfl : _ = done := Except.ok.inj hvisit
    have hsame : ∀ b, Work.Has ⟨wanted, queued, a :: todo⟩ b →
        Work.Has ⟨wanted, queued, todo⟩ b := by
      intro b hb
      rcases (hmem b).1 hb with hb | rfl
      · exact hb
      · exact Or.inl hold
    refine ⟨fun b hb => hsame b (h.queued b hb), fun b hb => hsame b (h.started b hb), ?_,
      fun b hb => h.reached b ((hmem b).2 (Or.inl hb))⟩
    intro b hb
    obtain ⟨targets, hnext, htargets⟩ := h.targets b hb
    exact ⟨targets, hnext, fun c hc => hsame c (htargets c hc)⟩
  · simp only [bind_eq_ok, pure_eq_ok] at hvisit
    obtain ⟨targets, hnext, rfl⟩ := hvisit
    -- the state in which the targets are queued has `a` among the visited
    have hstart : ∀ b, Work.Has ⟨a :: wanted, queued, todo⟩ b ↔
        Work.Has ⟨wanted, queued, a :: todo⟩ b := by
      intro b
      simp only [Work.Has, List.mem_cons]
      tauto
    have hpending : ∀ b ∈ (Work.mk (a :: wanted) queued todo).queued,
        Work.Has ⟨a :: wanted, queued, todo⟩ b := fun b hb => (hstart b).2 (h.queued b hb)
    obtain ⟨hqueued, hhas⟩ := foldl_enqueue_has targets hpending
    have hkeep : ∀ b, Work.Has ⟨wanted, queued, a :: todo⟩ b →
        (targets.foldl enqueue ⟨a :: wanted, queued, todo⟩).Has b :=
      fun b hb => (hhas b).2 (Or.inl ((hstart b).2 hb))
    refine ⟨hqueued, fun b hb => hkeep b (h.started b hb), ?_, fun b hb => ?_⟩
    · rw [foldl_enqueue_wanted]
      intro b hb
      rcases List.mem_cons.1 hb with rfl | hb
      · exact ⟨targets, hnext, fun c hc => (hhas c).2 (Or.inr hc)⟩
      · obtain ⟨old, hold, htargets⟩ := h.targets b hb
        exact ⟨old, hold, fun c hc => hkeep c (htargets c hc)⟩
    · rcases (hhas b).1 hb with hb | hb
      · exact h.reached b ((hstart b).1 hb)
      · exact ha.step hnext hb

theorem Work.Sound.explore (h : work.Sound next roots)
    (hexplore : explore next full room work = .ok done) :
    done.Sound next roots ∧ done.todo = [] := by
  induction room generalizing work with
  | zero =>
    obtain ⟨wanted, queued, _ | ⟨a, todo⟩⟩ := work
    · cases hexplore
      exact ⟨h, rfl⟩
    · cases hexplore
  | succ room ih =>
    obtain ⟨wanted, queued, _ | ⟨a, todo⟩⟩ := work
    · cases hexplore
      exact ⟨h, rfl⟩
    · simp only [Worklist.explore, bind_eq_ok] at hexplore
      obtain ⟨work', hvisit, hexplore⟩ := hexplore
      exact ih (h.visit hvisit) hexplore

/-- A worklist that comes to its end has visited what the roots lead to, and nothing of it was
refused. -/
theorem explore_roots (h : explore next full room (roots.foldl enqueue Work.empty) = .ok done) :
    (∀ a, a ∈ done.wanted ↔ Reached next roots a) ∧ ∀ a ∈ done.wanted, Succeeds (next a) := by
  obtain ⟨hsound, htodo⟩ := sound_roots.explore h
  have hwanted : ∀ a, done.Has a ↔ a ∈ done.wanted := by simp [Work.Has, htodo]
  have hnext : ∀ a ∈ done.wanted, ∃ targets, next a = .ok targets ∧
      ∀ b ∈ targets, b ∈ done.wanted := by
    intro a ha
    obtain ⟨targets, hnext, htargets⟩ := hsound.targets a ha
    exact ⟨targets, hnext, fun b hb => (hwanted b).1 (htargets b hb)⟩
  refine ⟨fun a => ⟨fun ha => hsound.reached a (Or.inl ha), ?_⟩, fun a ha => ?_⟩
  · rintro ⟨r, hr, hpath⟩
    induction hpath with
    | refl => exact (hwanted r).1 (hsound.started r hr)
    | tail _ hedge ih =>
      obtain ⟨targets, htargets, hb⟩ := hedge
      obtain ⟨targets', htargets', hclosed⟩ := hnext _ ih
      rw [htargets] at htargets'
      cases htargets'
      exact hclosed _ hb
  · obtain ⟨targets, htargets, -⟩ := hnext a ha
    exact ⟨targets, htargets⟩

/-- It has visited the least set with the roots that is closed under what the relation asks for,
where that is what is read off every visited element. -/
theorem explore_least {requires : α → Set α}
    (hrequires : ∀ a targets, next a = .ok targets → requires a = {b | b ∈ targets})
    (h : explore next full room (roots.foldl enqueue Work.empty) = .ok done) :
    IsLeast (Closed requires {r | r ∈ roots}) {a | a ∈ done.wanted} := by
  obtain ⟨hreached, hnext⟩ := explore_roots h
  refine ⟨⟨fun r hr => (hreached r).2 ⟨r, hr, .refl⟩, fun a ha b hb => ?_⟩, ?_⟩
  · obtain ⟨targets, htargets⟩ := hnext a ha
    rw [hrequires a targets htargets] at hb
    exact (hreached b).2 (((hreached a).1 ha).step htargets hb)
  · rintro s ⟨hroots, hclosed⟩ a ha
    obtain ⟨r, hr, hpath⟩ := (hreached a).1 ha
    induction hpath with
    | refl => exact hroots hr
    | @tail b c hpath hedge ih =>
      obtain ⟨targets, htargets, hc⟩ := hedge
      have hb : b ∈ s := ih ((hreached b).2 ⟨r, hr, hpath⟩)
      refine hclosed b hb ?_
      rw [hrequires b targets htargets]
      exact hc

end
end Foxhole.Worklist
