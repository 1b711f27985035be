import Foxhole.Lib.Thinning
import Foxhole.Ucode
import Mathlib.Data.List.Sort

/-! Which rows of the history are kept: select_entries of history.uc. -/
namespace Foxhole.History
open Keyed Thinning

/-- Where the text of a row is: a range of the file that was read, or the text itself. -/
inductive Source where
  | range (offset bytes : ℕ) (legacy : Bool)
  | raw (text : Text)
deriving DecidableEq

/-- A row as the index knows it: its time, and its place among the rows. -/
structure Entry where
  t : ℤ
  order : ℤ
  source : Source
deriving DecidableEq

/-- The comparison that `sort` is given, as an order: by time, then by place. -/
def Entry.Before (a b : Entry) : Prop := a.t < b.t ∨ a.t = b.t ∧ a.order ≤ b.order

instance : DecidableRel Entry.Before := fun a b =>
  inferInstanceAs (Decidable (a.t < b.t ∨ a.t = b.t ∧ a.order ≤ b.order))

/-- Rows of the last fifteen minutes are kept in full. -/
def isRecent (now : ℤ) (entry : Entry) : Bool := now - 900000 ≤ entry.t

/-- The key of a five-minute bucket. The source prints the number to make it a key. -/
def bucket (entry : Entry) : ℤ := entry.t.tdiv 300000

/-- The loop of `select_entries`: the last entry of each bucket, and the recent ones. -/
def gather (now : ℤ) (entries : List Entry) : List (ℤ × Entry) × List Entry :=
  entries.foldl (fun s entry =>
    if isRecent now entry then (s.1, s.2 ++ [entry])
    else (assign s.1 (bucket entry) entry, s.2)) ([], [])

/-- The entries that survive, in order, before the oldest are cut off. -/
def surviving (entries : List Entry) (now : ℤ) : List Entry :=
  let found := gather now entries
  (found.1.map (·.2) ++ found.2).insertionSort Entry.Before

def selectEntries (entries : List Entry) (now : ℤ) : List Entry :=
  let result := surviving entries now
  result.drop (result.length - 9000)

variable {entries samples : List Entry} {now now₁ now₂ : ℤ}

theorem gather_append (coarse : List (ℤ × Entry)) (recent : List Entry) :
    entries.foldl (fun s entry =>
      if isRecent now entry then (s.1, s.2 ++ [entry])
      else (assign s.1 (bucket entry) entry, s.2)) (coarse, recent) =
    ((entries.filter fun entry => !isRecent now entry).foldl
      (fun table entry => assign table (bucket entry) entry) coarse,
      recent ++ entries.filter (isRecent now)) := by
  induction entries generalizing coarse recent with
  | nil => simp
  | cons entry entries ih =>
    rw [List.foldl_cons]
    cases hr : isRecent now entry with
    | true =>
      rw [if_pos rfl, ih, List.filter_cons_of_neg (by simp [hr]), List.filter_cons_of_pos hr,
        List.append_assoc]
      rfl
    | false =>
      rw [if_neg (by simp), ih, List.filter_cons_of_pos (by simp [hr]),
        List.filter_cons_of_neg (by simp [hr]), List.foldl_cons]

theorem bucket_mono {a b : Entry} (h : a.t ≤ b.t) : bucket a ≤ bucket b :=
  Int.tdiv_le_tdiv (by decide) h

theorem Entry.Before.t_le {a b : Entry} (h : a.Before b) : a.t ≤ b.t := by
  rcases h with h | h
  · exact le_of_lt h
  · exact le_of_eq h.1

/-- Of entries in order, those survive that thinning keeps. -/
theorem surviving_eq_thin (h : entries.Pairwise Entry.Before) :
    surviving entries now = thin (isRecent now) bucket entries := by
  have hrecent : entries.Pairwise fun a b => isRecent now a = true → isRecent now b = true := by
    refine h.imp fun hab ha => ?_
    have := hab.t_le
    simp only [isRecent, decide_eq_true_eq] at ha ⊢
    omega
  have hbuckets : (entries.filter fun entry => !isRecent now entry).Pairwise
      fun a b => bucket a ≤ bucket b :=
    (h.imp fun hab => bucket_mono hab.t_le).sublist List.filter_sublist
  have hgather : gather now entries =
      ((lasts bucket (entries.filter fun entry => !isRecent now entry)).map fun a => (bucket a, a),
        entries.filter (isRecent now)) := by
    rw [gather, gather_append, foldl_assign_lasts hbuckets, List.nil_append]
  have hsplit : (gather now entries).1.map (·.2) ++ (gather now entries).2 =
      thin (isRecent now) bucket entries := by
    rw [thin_eq_lasts hrecent, hgather, List.map_map]
    exact congrArg (· ++ entries.filter (isRecent now)) (List.map_id _)
  rw [surviving, hsplit]
  exact (h.sublist thin_sublist).insertionSort_eq

theorem selectEntries_eq_thin (h : entries.Pairwise Entry.Before)
    (hn : (surviving entries now).length ≤ 9000) :
    selectEntries entries now = thin (isRecent now) bucket entries := by
  rw [selectEntries, Nat.sub_eq_zero_of_le hn, List.drop_zero, surviving_eq_thin h]

theorem isRecent_later (h : now₁ ≤ now₂) (entry : Entry) (hr : isRecent now₂ entry = true) :
    isRecent now₁ entry = true := by
  simp only [isRecent, decide_eq_true_eq] at hr ⊢
  omega

/-- A selection in between changes nothing, whatever is sampled after it. -/
theorem selectEntries_append (h : (entries ++ samples).Pairwise Entry.Before) (hn : now₁ ≤ now₂)
    (hfew : (surviving entries now₁).length ≤ 9000) :
    selectEntries (selectEntries entries now₁ ++ samples) now₂ =
      selectEntries (entries ++ samples) now₂ := by
  have hentries := (List.pairwise_append.1 h).1
  have hthin := selectEntries_eq_thin hentries hfew
  have hsub : (thin (isRecent now₁) bucket entries ++ samples).Sublist (entries ++ samples) :=
    thin_sublist.append_right samples
  have hsame : surviving (selectEntries entries now₁ ++ samples) now₂ =
      surviving (entries ++ samples) now₂ := by
    rw [hthin, surviving_eq_thin (h.sublist hsub), surviving_eq_thin h,
      thin_thin_append (isRecent_later hn)]
  simp only [selectEntries] at hsame ⊢
  rw [hsame]

/-- Sampling: every sample is put at the end and the selection is made at its time. -/
def sampled (entries samples : List Entry) : List Entry :=
  samples.foldl (fun kept sample => selectEntries (kept ++ [sample]) sample.t) entries

/-- No selection on the way has had to cut off old entries. -/
def NeverFull (entries : List Entry) : List Entry → Prop
  | [] => True
  | sample :: samples =>
    (surviving (entries ++ [sample]) sample.t).length ≤ 9000 ∧
      NeverFull (entries ++ [sample]) samples

theorem getLast?_cons_getD {α β : Type} (f : α → β) (a : α) (l : List α) (b : β) :
    ((a :: l).getLast?.map f).getD b = (l.getLast?.map f).getD (f a) := by
  rw [List.getLast?_cons]
  cases l.getLast? with
  | none => rfl
  | some c => rfl

theorem times_le {sample : Entry} (h : (sample :: samples).Pairwise Entry.Before) :
    ∀ later ∈ samples, sample.t ≤ later.t := fun later hlater =>
  ((List.pairwise_cons.1 h).1 later hlater).t_le

theorem neverFull_cons {sample : Entry} : NeverFull entries (sample :: samples) ↔
    (surviving (entries ++ [sample]) sample.t).length ≤ 9000 ∧
      NeverFull (entries ++ [sample]) samples := by
  rw [NeverFull]

theorem sampled_cons {sample : Entry} : sampled entries (sample :: samples) =
    sampled (selectEntries (entries ++ [sample]) sample.t) samples := by
  simp only [sampled, List.foldl_cons]

theorem sampled_selected (h : (entries ++ samples).Pairwise Entry.Before)
    (hnow : ∀ sample ∈ samples, now ≤ sample.t) (hfew : (surviving entries now).length ≤ 9000)
    (hfull : NeverFull entries samples) : sampled (selectEntries entries now) samples =
      selectEntries (entries ++ samples) ((samples.getLast?.map (·.t)).getD now) := by
  induction samples generalizing entries now with
  | nil =>
    rw [List.append_nil, sampled, List.foldl_nil, List.getLast?_nil, Option.map_none,
      Option.getD_none]
  | cons sample samples ih =>
    obtain ⟨hroom, hfull⟩ := neverFull_cons.1 hfull
    have hsample : now ≤ sample.t := hnow sample List.mem_cons_self
    have htimes := times_le (List.pairwise_append.1 h).2.1
    rw [List.append_cons] at h ⊢
    have hone : (entries ++ [sample]).Pairwise Entry.Before := (List.pairwise_append.1 h).1
    rw [sampled_cons, selectEntries_append hone hsample hfew, getLast?_cons_getD]
    exact ih h htimes hroom hfull

/-- Selecting early and again later keeps what selecting later keeps; and so sampling, with a
selection at every sample, keeps what one selection at the end keeps. -/
theorem retention_composes (h : entries.Pairwise Entry.Before) (hn : now₁ ≤ now₂)
    (hfew : (surviving entries now₁).length ≤ 9000) :
    selectEntries (selectEntries entries now₁) now₂ = selectEntries entries now₂ ∧
    ∀ samples, (entries ++ samples).Pairwise Entry.Before → NeverFull entries samples →
      ∀ last ∈ samples.getLast?, sampled entries samples =
        selectEntries (entries ++ samples) last.t := by
  constructor
  · have happend := @selectEntries_append entries [] now₁ now₂ (by rwa [List.append_nil]) hn hfew
    rwa [List.append_nil, List.append_nil] at happend
  · intro samples hs hfull last hlast
    cases samples with
    | nil => simp at hlast
    | cons sample samples =>
      obtain ⟨hroom, hfull⟩ := neverFull_cons.1 hfull
      have htimes := times_le (List.pairwise_append.1 hs).2.1
      have hend : (samples.getLast?.map (·.t)).getD sample.t = last.t := by
        rw [← getLast?_cons_getD (·.t) sample samples 0, hlast]
        rfl
      rw [List.append_cons] at hs ⊢
      rw [sampled_cons, ← hend]
      exact sampled_selected hs htimes hroom hfull

/-- A bucket with two rows, one of them in the window when the first selection is made. -/
theorem retention_straddles :
    let entries : List Entry := [⟨600000, 0, .raw []⟩, ⟨700000, 1, .raw []⟩, ⟨1600000, 2, .raw []⟩]
    selectEntries (selectEntries entries 1550000) 1650000 = selectEntries entries 1650000 :=
  (retention_composes (by decide) (by decide) (by decide)).1

end Foxhole.History
