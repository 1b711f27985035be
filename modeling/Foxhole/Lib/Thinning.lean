import Foxhole.Lib.Keyed
import Mathlib.Data.List.Induction
import Mathlib.Data.List.Sort
import Mathlib.Order.Lattice

/-! Thinning a list: what is recent stays, of the rest the last element with each key. -/
namespace Thinning
open Foxhole.Keyed

variable {α κ : Type*} [DecidableEq κ] {recent recent₁ recent₂ : α → Bool} {key : α → κ}
  {l m : List α} {a b : α}

/-- Keep what is recent, and what is not when nothing later of its key is not recent either. -/
def thin (recent : α → Bool) (key : α → κ) : List α → List α
  | [] => []
  | a :: l =>
    if recent a || !(l.any fun b => !recent b && key b = key a) then a :: thin recent key l
    else thin recent key l

theorem thin_sublist : (thin recent key l).Sublist l := by
  induction l with
  | nil => exact List.Sublist.refl _
  | cons a l ih =>
    unfold thin
    split
    · exact ih.cons_cons a
    · exact ih.cons a

theorem recent_mem_thin (ha : a ∈ l) (hr : recent a = true) : a ∈ thin recent key l := by
  induction l with
  | nil => cases ha
  | cons c l ih =>
    unfold thin
    rcases List.mem_cons.1 ha with rfl | ha
    · simp [hr]
    · split
      · exact List.mem_cons_of_mem c (ih ha)
      · exact ih ha

/-- Of every key that is not recent somewhere, an element that is not recent stays. -/
theorem key_mem_thin (ha : a ∈ l) (hr : recent a = false) :
    ∃ b ∈ thin recent key l, recent b = false ∧ key b = key a := by
  induction l generalizing a with
  | nil => cases ha
  | cons c l ih =>
    rcases List.mem_cons.1 ha with rfl | ha
    · by_cases hany : (l.any fun b => !recent b && key b = key a) = true
      · obtain ⟨b, hb, hmatch⟩ := List.any_eq_true.1 hany
        simp only [Bool.and_eq_true, Bool.not_eq_true', decide_eq_true_eq] at hmatch
        obtain ⟨d, hd, hdr, hdk⟩ := ih hb hmatch.1
        refine ⟨d, ?_, hdr, hdk.trans hmatch.2⟩
        unfold thin
        split
        · exact List.mem_cons_of_mem a hd
        · exact hd
      · exact ⟨a, by simp [thin, hany], hr, rfl⟩
    · obtain ⟨d, hd, hdr, hdk⟩ := ih ha hr
      refine ⟨d, ?_, hdr, hdk⟩
      unfold thin
      split
      · exact List.mem_cons_of_mem c hd
      · exact hd

/-- Thinning first by a wider notion of recent does not change which keys come later. -/
theorem any_thin (h : ∀ a, recent₂ a = true → recent₁ a = true) (k : κ) :
    ((thin recent₁ key l ++ m).any fun b => !recent₂ b && key b = k) =
      ((l ++ m).any fun b => !recent₂ b && key b = k) := by
  rw [Bool.eq_iff_iff, List.any_eq_true, List.any_eq_true]
  constructor
  · rintro ⟨b, hb, hmatch⟩
    refine ⟨b, ?_, hmatch⟩
    rcases List.mem_append.1 hb with hb | hb
    · exact List.mem_append_left m (thin_sublist.subset hb)
    · exact List.mem_append_right l hb
  · rintro ⟨b, hb, hmatch⟩
    rcases List.mem_append.1 hb with hb | hb
    · cases hr : recent₁ b with
      | true => exact ⟨b, List.mem_append_left m (recent_mem_thin hb hr), hmatch⟩
      | false =>
        obtain ⟨d, hd, hdr, hdk⟩ := @key_mem_thin _ _ _ recent₁ key _ _ hb hr
        have hdr₂ : recent₂ d = false := by
          rw [← Bool.not_eq_true]
          intro hd₂
          rw [h d hd₂] at hdr
          cases hdr
        refine ⟨d, List.mem_append_left m hd, ?_⟩
        simp only [Bool.and_eq_true, Bool.not_eq_true', decide_eq_true_eq] at hmatch ⊢
        exact ⟨hdr₂, hdk.trans hmatch.2⟩
    · exact ⟨b, List.mem_append_right _ hb, hmatch⟩

/-- What is thinned early is thinned late to the same list, whatever has come after it. -/
theorem thin_thin_append (h : ∀ a, recent₂ a = true → recent₁ a = true) :
    thin recent₂ key (thin recent₁ key l ++ m) = thin recent₂ key (l ++ m) := by
  induction l with
  | nil => rfl
  | cons a l ih =>
    by_cases hkeep : (recent₁ a || !(l.any fun b => !recent₁ b && key b = key a)) = true
    · rw [thin, if_pos hkeep, List.cons_append, List.cons_append, thin, thin, any_thin h, ih]
    · rw [thin, if_neg hkeep, ih, List.cons_append, thin, if_neg]
      simp only [Bool.or_eq_true, Bool.not_eq_true', not_or, Bool.not_eq_true,
        Bool.not_eq_false] at hkeep
      obtain ⟨hra, hany⟩ := hkeep
      obtain ⟨b, hb, hmatch⟩ := List.any_eq_true.1 hany
      simp only [Bool.and_eq_true, Bool.not_eq_true', decide_eq_true_eq] at hmatch
      have hlate : ∀ c, recent₁ c = false → recent₂ c = false := by
        intro c hc
        rw [← Bool.not_eq_true]
        intro hc₂
        rw [h c hc₂] at hc
        cases hc
      have hany₂ : ((l ++ m).any fun b => !recent₂ b && key b = key a) = true :=
        List.any_eq_true.2 ⟨b, List.mem_append_left m hb, by simp [hlate b hmatch.1, hmatch.2]⟩
      simp [hlate a hra, hany₂]

/-! The same with a table: one loop assigns the rest to their keys and collects what is recent. -/

/-- The last element of each key. -/
def lasts (key : α → κ) (l : List α) : List α := thin (fun _ => false) key l

theorem lasts_cons : lasts key (a :: l) =
    if l.any fun b => key b = key a then lasts key l else a :: lasts key l := by
  simp only [lasts, thin, Bool.false_or, Bool.not_false, Bool.true_and]
  by_cases h : (l.any fun b => decide (key b = key a)) = true
  · simp [h]
  · simp [h]

theorem lasts_concat :
    lasts key (l ++ [a]) = (lasts key l).filter (fun b => key b ≠ key a) ++ [a] := by
  induction l with
  | nil => simp [lasts, thin]
  | cons b l ih =>
    rw [List.cons_append, lasts_cons, lasts_cons, ih, List.any_append]
    by_cases hab : key b = key a
    · have hlast : (l.any fun c => key c = key b) || ([a].any fun c => key c = key b) := by
        simp [hab]
      rw [if_pos hlast]
      split
      · rfl
      · simp [hab]
    · have hlast : ([a].any fun c => decide (key c = key b)) = false := by simpa using Ne.symm hab
      rw [hlast, Bool.or_false]
      split
      · rfl
      · simp [hab]

/-- When what is recent comes last, the rest is thinned by itself. -/
theorem thin_eq_lasts (h : l.Pairwise fun a b => recent a = true → recent b = true) :
    thin recent key l = lasts key (l.filter fun a => !recent a) ++ l.filter recent := by
  induction l with
  | nil => rfl
  | cons a l ih =>
    obtain ⟨ha, hl⟩ := List.pairwise_cons.1 h
    cases hr : recent a with
    | true =>
      have hall : l.filter (fun b => !recent b) = [] := by
        rw [List.filter_eq_nil_iff]
        intro b hb
        simp [ha b hb hr]
      have hih := ih hl
      rw [hall] at hih
      rw [thin, hr, Bool.true_or, if_pos rfl, hih, List.filter_cons_of_neg (by simp [hr]), hall,
        List.filter_cons_of_pos hr]
      rfl
    | false =>
      have hany : (l.filter fun b => !recent b).any (fun b => key b = key a) =
          l.any fun b => !recent b && key b = key a := by
        rw [List.any_filter]
      rw [List.filter_cons_of_pos (by simp [hr]), List.filter_cons_of_neg (by simp [hr]),
        lasts_cons,
        hany, thin, hr, ih hl, Bool.false_or]
      by_cases hk : (l.any fun b => !recent b && decide (key b = key a)) = true
      · simp [hk]
      · simp [hk]

section Table
variable {κ : Type*} [LinearOrder κ] {key : α → κ} {l : List α} {a : α} {k : κ}

theorem lasts_keys (h : l.Pairwise fun a b => key a ≤ key b) :
    (lasts key l).Pairwise fun a b => key a < key b := by
  induction l with
  | nil => exact List.Pairwise.nil
  | cons a l ih =>
    obtain ⟨ha, hl⟩ := List.pairwise_cons.1 h
    rw [lasts_cons]
    split
    · exact ih hl
    · rename_i hnone
      refine List.pairwise_cons.2 ⟨fun b hb => ?_, ih hl⟩
      have hbl : b ∈ l := thin_sublist.subset hb
      refine lt_of_le_of_ne (ha b hbl) fun he => hnone ?_
      exact List.any_eq_true.2 ⟨b, hbl, by simp [he]⟩

/-- In a table in order, the greatest key is at the end. -/
theorem assign_greatest {t : List α} (ht : t.Pairwise fun a b => key a < key b)
    (hk : ∀ b ∈ t, key b ≤ key a) :
    assign (t.map fun b => (key b, b)) (key a) a =
      (t.filter fun b => key b ≠ key a).map (fun b => (key b, b)) ++ [(key a, a)] := by
  have hkeys : (t.map fun b => (key b, b)).map (·.1) = t.map key := by simp
  unfold assign
  rw [hkeys]
  induction t with
  | nil => rfl
  | cons b t ih =>
    obtain ⟨hb, ht⟩ := List.pairwise_cons.1 ht
    have ih := ih ht (fun c hc => hk c (List.mem_cons_of_mem b hc)) (by simp)
    by_cases hab : key b = key a
    · have hempty : t = [] := by
        rw [List.eq_nil_iff_forall_not_mem]
        intro c hc
        exact absurd (hb c hc) (not_lt.2 (hab ▸ hk c (List.mem_cons_of_mem b hc)))
      subst hempty
      simp [hab]
    · have hne : key a ≠ key b := fun he => hab he.symm
      by_cases hmem : key a ∈ t.map key
      · rw [if_pos hmem] at ih
        have hcons : key a ∈ (b :: t).map key := List.mem_cons_of_mem _ hmem
        rw [if_pos hcons, List.map_cons, List.map_cons, ih,
          List.filter_cons_of_pos (by simpa using hab)]
        simp [hab]
      · rw [if_neg hmem] at ih
        have hcons : key a ∉ (b :: t).map key := by
          rw [List.map_cons, List.mem_cons]
          exact fun hor => hor.elim hne hmem
        rw [if_neg hcons, List.map_cons, List.cons_append, ih,
          List.filter_cons_of_pos (by simpa using hab)]
        rfl

theorem foldl_assign_lasts (h : l.Pairwise fun a b => key a ≤ key b) :
    l.foldl (fun table a => assign table (key a) a) [] = (lasts key l).map fun a => (key a, a) := by
  induction l using List.reverseRecOn with
  | nil => rfl
  | append_singleton l a ih =>
    obtain ⟨hl, -, hla⟩ := List.pairwise_append.1 h
    rw [List.foldl_concat, ih hl, assign_greatest (lasts_keys hl) fun b hb =>
      hla b (thin_sublist.subset hb) a List.mem_cons_self, lasts_concat, List.map_append]
    rfl

end Table

/-! The last elements, and one put in its place. -/
section Capped
variable {β : Type*}

theorem thin_map (f : β → α) (m : List β) :
    thin recent key (m.map f) = (thin (fun b => recent (f b)) (fun b => key (f b)) m).map f := by
  induction m with
  | nil => rfl
  | cons b m ih =>
    have hany : ((m.map f).any fun c => !recent c && key c = key (f b)) =
        m.any fun c => !recent (f c) && key (f c) = key (f b) := by
      simp [List.any_map, Function.comp_def]
    rw [List.map_cons, thin, thin, hany, ih]
    split
    · rfl
    · rfl

theorem thin_thin : thin recent key (thin recent key l) = thin recent key l := by
  have h := @thin_thin_append _ _ _ recent recent key l [] fun _ => id
  rwa [List.append_nil, List.append_nil] at h

/-- What is thin stays thin when its first elements go. -/
theorem thin_drop (h : thin recent key l = l) (n : ℕ) :
    thin recent key (l.drop n) = l.drop n := by
  induction n generalizing l with
  | zero => exact h
  | succ n ih =>
    cases l with
    | nil => rfl
    | cons a l =>
      refine ih (l := l) ?_
      rw [thin] at h
      split at h
      · exact (List.cons.inj h).2
      · have hlen := congrArg List.length h
        have hle := (@thin_sublist _ _ _ recent key l).length_le
        rw [List.length_cons] at hlen
        omega

/-- The last `n` elements. -/
def capped (n : ℕ) (l : List α) : List α := l.drop (l.length - n)

theorem length_capped (n : ℕ) : (capped n l).length = min n l.length := by
  rw [capped, List.length_drop]
  omega

theorem capped_cons {n : ℕ} (h : n ≤ l.length) : capped n (a :: l) = capped n l := by
  have hlen : (a :: l).length - n = (l.length - n) + 1 := by
    rw [List.length_cons]
    omega
  rw [capped, hlen, List.drop_succ_cons, capped]

theorem capped_of_le {n : ℕ} (h : l.length ≤ n) : capped n l = l := by
  rw [capped, Nat.sub_eq_zero_of_le h, List.drop_zero]

theorem capped_sublist {n : ℕ} : (capped n l).Sublist l := List.drop_sublist _ _

theorem thin_capped (h : thin recent key l = l) (n : ℕ) :
    thin recent key (capped n l) = capped n l := thin_drop h _

theorem map_capped (f : β → α) (n : ℕ) (m : List β) :
    (capped n m).map f = capped n (m.map f) := by
  rw [capped, capped, List.map_drop, List.length_map]

variable {r : α → α → Prop} [DecidableRel r]

/-- Cutting off before an element is put in its place makes no difference to the last `n`. -/
theorem capped_orderedInsert {n : ℕ} (h : l.Pairwise fun b c => r a b → r a c) :
    capped n ((capped n l).orderedInsert r a) = capped n (l.orderedInsert r a) := by
  induction l with
  | nil => simp [capped]
  | cons b l ih =>
    obtain ⟨hb, hl⟩ := List.pairwise_cons.1 h
    by_cases hle : (b :: l).length ≤ n
    · rw [capped_of_le hle]
    · have hn : n ≤ l.length := by
        rw [List.length_cons] at hle
        omega
      rw [capped_cons hn]
      by_cases hab : r a b
      · rw [List.orderedInsert_cons_of_le r l hab, capped_cons (by rw [List.length_cons]; omega),
          capped_cons hn]
        cases hc : capped n l with
        | nil =>
          have h0 : n = 0 := by
            have := length_capped (l := l) n
            rw [hc, List.length_nil] at this
            omega
          rw [h0]
          simp [capped]
        | cons c m =>
          have hlen : (c :: m).length = n := by
            rw [← hc, length_capped]
            omega
          have hmem : c ∈ l := by
            refine (@capped_sublist _ l n).subset ?_
            rw [hc]
            exact List.mem_cons_self
          rw [List.orderedInsert_cons_of_le r m (hb c hmem hab), capped_cons (le_of_eq hlen.symm),
            capped_of_le (le_of_eq hlen)]
      · rw [List.orderedInsert_of_not_le r l hab, ih hl, capped_cons]
        rw [List.orderedInsert_length]
        omega

end Capped

end Thinning
