import Mathlib.Data.List.Nodup
import Mathlib.Tactic.Common

/-! Lists of elements told apart by a key, grown by the elements whose key is new. -/
namespace Foxhole.Keyed

variable {α κ : Type*} [DecidableEq κ] {key : α → κ} {l new : List α} {a b : α}

/-- An element is found by what only its key has. -/
theorem find?_of_mem {κ : Type*} {key : α → κ} {p : α → Bool} (h : (l.map key).Nodup) (ha : a ∈ l)
    (hpa : p a = true) (hp : ∀ b ∈ l, p b = true → key b = key a) : l.find? p = some a := by
  cases hf : l.find? p with
  | none => exact absurd hpa (List.find?_eq_none.1 hf a ha)
  | some b =>
    have hb := List.mem_of_find?_eq_some hf
    rw [List.inj_on_of_nodup_map h hb ha (hp b hb (List.find?_some hf))]

/-- Append an element unless its key is there. -/
def insertNew (key : α → κ) (l : List α) (a : α) : List α :=
  if l.any fun b => key b = key a then l else l ++ [a]

theorem insertNew_of_mem (h : key a ∈ l.map key) : insertNew key l a = l := by
  obtain ⟨b, hb, he⟩ := List.mem_map.1 h
  exact if_pos (List.any_eq_true.2 ⟨b, hb, by simpa using he⟩)

theorem insertNew_of_notMem (h : key a ∉ l.map key) : insertNew key l a = l ++ [a] := by
  refine if_neg fun hany => h ?_
  obtain ⟨b, hb, he⟩ := List.any_eq_true.1 hany
  exact List.mem_map.2 ⟨b, hb, by simpa using he⟩

theorem subset_insertNew : l ⊆ insertNew key l a := by
  unfold insertNew
  split
  · exact List.Subset.refl l
  · exact List.subset_append_left l [a]

theorem mem_of_mem_insertNew (h : b ∈ insertNew key l a) : b ∈ l ∨ b = a := by
  unfold insertNew at h
  split at h
  · exact Or.inl h
  · simpa using h

/-- The key is there afterwards. -/
theorem key_mem_insertNew : key a ∈ (insertNew key l a).map key := by
  by_cases h : key a ∈ l.map key
  · rwa [insertNew_of_mem h]
  · simp [insertNew_of_notMem h]

theorem nodup_insertNew (h : (l.map key).Nodup) : ((insertNew key l a).map key).Nodup := by
  by_cases ha : key a ∈ l.map key
  · rwa [insertNew_of_mem ha]
  · rw [insertNew_of_notMem ha, List.map_append, List.nodup_append]
    refine ⟨h, by simp, ?_⟩
    rintro k hk k' hk' rfl
    simp only [List.map_cons, List.map_nil, List.mem_singleton] at hk'
    exact ha (hk' ▸ hk)

/-- At most one element has a given key where the keys are distinct. -/
theorem length_filter_key_le (h : (l.map key).Nodup) (k : κ) :
    (l.filter fun a => key a = k).length ≤ 1 := by
  induction l with
  | nil => simp
  | cons a l ih =>
    obtain ⟨ha, hl⟩ := List.nodup_cons.1 h
    by_cases hk : key a = k
    · have hnone : l.filter (fun b => key b = k) = [] := by
        rw [List.filter_eq_nil_iff]
        intro b hb hbk
        exact ha (hk ▸ (by simpa using hbk : key b = k) ▸ List.mem_map_of_mem hb)
      simp [hk, hnone]
    · simpa [hk] using ih hl

/-- A key that is there has one element. -/
theorem length_filter_key_eq_one (h : (l.map key).Nodup) {k : κ} :
    (l.filter fun a => key a = k).length = 1 ↔ k ∈ l.map key := by
  have hle := length_filter_key_le h k
  have hpos : 0 < (l.filter fun a => key a = k).length ↔ k ∈ l.map key := by
    rw [List.length_pos_iff_exists_mem]
    simp
  rw [← hpos]
  omega

/-- Elements with keys of their own add as many as have a key that is not there yet. -/
theorem length_foldl_insertNew (hnew : (new.map key).Nodup) :
    (new.foldl (insertNew key) l).length =
      l.length + (new.filter fun a => key a ∉ l.map key).length := by
  induction new generalizing l with
  | nil => simp
  | cons a new ih =>
    obtain ⟨ha, hnew⟩ := List.nodup_cons.1 hnew
    rw [List.foldl_cons, ih hnew]
    by_cases hal : key a ∈ l.map key
    · rw [insertNew_of_mem hal, List.filter_cons_of_neg (by simpa using hal)]
    · have hrest : (new.filter fun b => key b ∉ (l ++ [a]).map key) =
          new.filter fun b => key b ∉ l.map key := by
        refine List.filter_congr fun b hb => ?_
        have hne : key b ≠ key a := fun he => ha (he ▸ List.mem_map_of_mem hb)
        simp [hne]
      rw [insertNew_of_notMem hal, hrest, List.filter_cons_of_pos (by simpa using hal)]
      simp only [List.length_append, List.length_cons, List.length_nil]
      omega

theorem subset_foldl_insertNew : l ⊆ new.foldl (insertNew key) l := by
  induction new generalizing l with
  | nil => exact List.Subset.refl l
  | cons a new ih => exact List.Subset.trans subset_insertNew ih

/-- An element with a key of its own is stored. -/
theorem mem_foldl_insertNew (hnew : (new.map key).Nodup) (ha : a ∈ new) (hl : key a ∉ l.map key) :
    a ∈ new.foldl (insertNew key) l := by
  induction new generalizing l with
  | nil => cases ha
  | cons c new ih =>
    obtain ⟨hc, hnew⟩ := List.nodup_cons.1 hnew
    rw [List.foldl_cons]
    rcases List.mem_cons.1 ha with rfl | hrest
    · apply subset_foldl_insertNew
      rw [insertNew_of_notMem hl]
      exact List.mem_append_right l List.mem_cons_self
    · refine ih hnew hrest fun hk => ?_
      obtain ⟨d, hd, he⟩ := List.mem_map.1 hk
      rcases mem_of_mem_insertNew hd with hd | rfl
      · exact hl (he ▸ List.mem_map_of_mem hd)
      · exact hc (he ▸ List.mem_map_of_mem hrest)

/-- Elements for which the new ones do not count stay as they are. -/
theorem filter_foldl_insertNew {q : α → Bool} (hq : ∀ a ∈ new, q a = false) :
    (new.foldl (insertNew key) l).filter q = l.filter q := by
  induction new generalizing l with
  | nil => rfl
  | cons a new ih =>
    rw [List.foldl_cons, ih fun b hb => hq b (List.mem_cons_of_mem _ hb)]
    by_cases hk : key a ∈ l.map key
    · rw [insertNew_of_mem hk]
    · rw [insertNew_of_notMem hk, List.filter_append]
      simp [hq a List.mem_cons_self]

/-! Tables of keys with a value each. -/
section Table
variable {β : Type*} {table rows : List (κ × β)} {k : κ} {v : β}

/-- `table[k] = v` -/
def assign (table : List (κ × β)) (k : κ) (v : β) : List (κ × β) :=
  if k ∈ table.map (·.1) then table.map fun row => if row.1 = k then (k, v) else row
  else table ++ [(k, v)]

theorem assign_of_notMem (h : k ∉ table.map (·.1)) : assign table k v = table ++ [(k, v)] :=
  if_neg h

/-- Values may be replaced before or after. -/
theorem assign_map {γ : Type*} (f : β → γ) :
    assign (table.map fun row => (row.1, f row.2)) k (f v) =
      (assign table k v).map fun row => (row.1, f row.2) := by
  have hkeys : (table.map fun row => (row.1, f row.2)).map (·.1) = table.map (·.1) := by
    simp [Function.comp_def]
  unfold assign
  rw [hkeys]
  split
  · simp only [List.map_map]
    refine List.map_congr_left fun row _ => ?_
    dsimp only [Function.comp]
    split <;> rfl
  · simp

/-- A row that is there already changes nothing. -/
theorem assign_of_mem (hnodup : (table.map (·.1)).Nodup) (h : (k, v) ∈ table) :
    assign table k v = table := by
  rw [assign, if_pos (List.mem_map_of_mem h)]
  refine (List.map_congr_left fun row hrow => ?_).trans table.map_id
  split
  · rename_i hk
    exact List.inj_on_of_nodup_map hnodup h hrow hk.symm
  · rfl

theorem keys_assign : (assign table k v).map (·.1) =
    if k ∈ table.map (·.1) then table.map (·.1) else table.map (·.1) ++ [k] := by
  unfold assign
  split
  · rw [List.map_map]
    refine List.map_congr_left fun row _ => ?_
    by_cases hk : row.1 = k <;> simp [hk]
  · simp

/-- Rows with keys of their own that are new are put at the end. -/
theorem foldl_assign (hnew : ((table ++ rows).map (·.1)).Nodup) :
    rows.foldl (fun table row => assign table row.1 row.2) table = table ++ rows := by
  induction rows generalizing table with
  | nil => simp
  | cons row rows ih =>
    have hrow : row.1 ∉ table.map (·.1) := by
      rw [List.map_append, List.map_cons, List.nodup_append] at hnew
      exact fun hmem => hnew.2.2 _ hmem _ List.mem_cons_self rfl
    rw [List.foldl_cons, assign_of_notMem hrow, ih (by simpa using hnew)]
    simp

end Table

theorem lookup_of_mem {α β : Type*} [BEq α] [LawfulBEq α] {table : List (α × β)} {k : α} {v : β}
    (hnodup : (table.map (·.1)).Nodup) (h : (k, v) ∈ table) :
    table.lookup k = some v := by
  induction table with
  | nil => simp at h
  | cons row table ih =>
    obtain ⟨k', v'⟩ := row
    rw [List.map_cons, List.nodup_cons] at hnodup
    rcases List.mem_cons.1 h with heq | hmem
    · cases heq
      exact List.lookup_cons_self
    · have hne : (k == k') = false := by
        rw [beq_eq_false_iff_ne]
        rintro rfl
        exact hnodup.1 (List.mem_map.2 ⟨_, hmem, rfl⟩)
      rw [List.lookup_cons, hne]
      exact ih hnodup.2 hmem

end Foxhole.Keyed
