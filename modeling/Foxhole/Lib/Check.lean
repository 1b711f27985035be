import Mathlib.Data.List.Nodup
import Mathlib.Tactic.Common

/-! Validators that either fail with a code or return a value, and the rules that take
them apart. -/
namespace Foxhole.Check

variable {ε α β : Type} {e : ε} {p : Prop} [Decidable p]

/-- Fail with `e` unless `p` holds. -/
def require (p : Prop) [Decidable p] (e : ε) : Except ε Unit :=
  if p then .ok () else .error e

/-- The value has been returned, whatever it is. -/
def Succeeds (x : Except ε α) : Prop := ∃ a, x = .ok a

instance (x : Except ε α) : Decidable (Succeeds x) :=
  match x with
  | .ok a => isTrue ⟨a, rfl⟩
  | .error _ => isFalse (by rintro ⟨a, h⟩; cases h)

@[simp] theorem require_eq_ok {u : Unit} : require p e = .ok u ↔ p := by
  unfold require; split <;> simp_all

theorem require_eq_error {e' : ε} : require p e = .error e' ↔ ¬ p ∧ e = e' := by
  unfold require
  split <;> simp_all

@[simp] theorem pure_eq_ok {a b : α} : (pure a : Except ε α) = .ok b ↔ a = b := by
  simp [pure, Except.pure]

@[simp] theorem throw_ne_ok {b : α} : (throw e : Except ε α) ≠ .ok b := by
  simp [throw, throwThe, MonadExceptOf.throw]

@[simp] theorem bind_eq_ok {x : Except ε α} {f : α → Except ε β} {b : β} :
    (x >>= f) = .ok b ↔ ∃ a, x = .ok a ∧ f a = .ok b := by
  cases x <;> simp [bind, Except.bind]

@[simp] theorem map_eq_ok {x : Except ε α} {f : α → β} {b : β} :
    (f <$> x) = .ok b ↔ ∃ a, x = .ok a ∧ f a = b := by
  cases x <;> simp [Functor.map, Except.map]

@[simp] theorem succeeds_ok {a : α} : Succeeds (.ok a : Except ε α) := ⟨a, rfl⟩

@[simp] theorem not_succeeds_error : ¬ Succeeds (.error e : Except ε α) := by
  rintro ⟨a, h⟩; cases h

@[simp] theorem discard_eq_ok {x : Except ε α} {u : Unit} : discard x = .ok u ↔ Succeeds x := by
  cases x <;> simp [Succeeds, discard, Functor.discard, Functor.mapConst, Except.map]

@[simp] theorem succeeds_require : Succeeds (require p e) ↔ p := by simp [Succeeds]

@[simp] theorem succeeds_bind {x : Except ε α} {f : α → Except ε β} :
    Succeeds (x >>= f) ↔ ∃ a, x = .ok a ∧ Succeeds (f a) := by
  simp only [Succeeds, bind_eq_ok]
  exact ⟨fun ⟨b, a, h⟩ => ⟨a, h.1, b, h.2⟩, fun ⟨a, h, b, hb⟩ => ⟨b, a, h, hb⟩⟩

/-- A checker run over a list succeeds when it succeeds at every element. -/
theorem forM_eq_ok {f : α → Except ε Unit} {l : List α} {u : Unit} :
    l.forM f = .ok u ↔ ∀ a ∈ l, f a = .ok () := by
  induction l with
  | nil => simp [List.forM, pure, Except.pure]
  | cons a l ih =>
    have h : (a :: l).forM f = (f a >>= fun _ => l.forM f) := rfl
    simp only [h, bind_eq_ok, ih, List.forall_mem_cons]
    exact ⟨fun ⟨_, ha, hl⟩ => ⟨ha, hl⟩, fun ⟨ha, hl⟩ => ⟨(), ha, hl⟩⟩

/-- A loop over a list succeeds when it does at every element. -/
theorem succeeds_mapM {f : α → Except ε β} {l : List α} :
    Succeeds (l.mapM f) ↔ ∀ a ∈ l, Succeeds (f a) := by
  induction l with
  | nil => simp [Succeeds]
  | cons a l ih =>
    simp only [List.mapM_cons, succeeds_bind, List.forall_mem_cons, ← ih]
    constructor
    · rintro ⟨b, hb, bs, hbs, -⟩
      exact ⟨⟨b, hb⟩, bs, hbs⟩
    · rintro ⟨⟨b, hb⟩, bs, hbs⟩
      exact ⟨b, hb, bs, hbs, succeeds_ok⟩

/-- It returns what comes of the elements. -/
theorem mem_mapM {f : α → Except ε β} {l : List α} {bs : List β} (h : l.mapM f = .ok bs) {b : β} :
    b ∈ bs ↔ ∃ a ∈ l, f a = .ok b := by
  induction l generalizing bs with
  | nil =>
    cases h
    simp
  | cons a l ih =>
    simp only [List.mapM_cons, bind_eq_ok, pure_eq_ok] at h
    obtain ⟨c, hc, cs, hcs, rfl⟩ := h
    simp only [List.mem_cons, ih hcs, exists_eq_or_imp, hc, Except.ok.injEq]
    rw [eq_comm]

/-- It fails as one of the elements does. -/
theorem mapM_eq_error {f : α → Except ε β} {l : List α} (h : l.mapM f = .error e) :
    ∃ a ∈ l, f a = .error e := by
  induction l with
  | nil => cases h
  | cons a l ih =>
    cases ha : f a with
    | error e' =>
      simp only [List.mapM_cons, ha] at h
      cases h
      exact ⟨a, List.mem_cons_self, ha⟩
    | ok b =>
      cases hl : l.mapM f with
      | ok bs =>
        simp only [List.mapM_cons, ha, hl] at h
        cases h
      | error e' =>
        simp only [List.mapM_cons, ha, hl] at h
        cases h
        obtain ⟨a', hmem, ha'⟩ := ih hl
        exact ⟨a', List.mem_cons_of_mem a hmem, ha'⟩

/-- A loop that may fail, followed along the prefix it has run over. -/
theorem foldlM_prefix {f : β → α → Except ε β} {I : List α → β → Prop} {l : List α} {b c : β}
    (hstep : ∀ pre b a c, I pre b → f b a = .ok c → I (pre ++ [a]) c) (hb : I [] b)
    (h : l.foldlM f b = .ok c) : I l c := by
  have hgen : ∀ l pre b, I pre b → l.foldlM f b = .ok c → I (pre ++ l) c := by
    intro l
    induction l with
    | nil =>
      intro pre b hb h
      simp only [List.foldlM_nil, pure_eq_ok] at h
      simpa [h] using hb
    | cons a l ih =>
      intro pre b hb h
      simp only [List.foldlM_cons, bind_eq_ok] at h
      obtain ⟨d, hd, h⟩ := h
      have := ih (pre ++ [a]) d (hstep pre b a d hb hd) h
      simpa using this
  simpa using hgen l [] b hb h

/-- A loop whose every step succeeds is the plain loop. -/
theorem foldlM_eq_foldl {f : β → α → Except ε β} {g : β → α → β} {l : List α} {b : β}
    (h : ∀ a ∈ l, ∀ b, f b a = .ok (g b a)) : l.foldlM f b = .ok (l.foldl g b) := by
  induction l generalizing b with
  | nil => rfl
  | cons a l ih =>
    rw [List.foldlM_cons, h a List.mem_cons_self]
    exact ih fun c hc => h c (List.mem_cons_of_mem _ hc)

/-! Scans that remember the keys they have met, as a loop over a list with a `seen` table. -/
section Scan
variable {κ : Type} {keys : β → List κ} {f : List κ → α → Except ε β} {seen : List κ}
  {P : List κ → β → Prop} {l : List α} {bs cs : List β} {b : β}

def scan (keys : β → List κ) (f : List κ → α → Except ε β) :
    List κ → List α → Except ε (List β)
  | _, [] => .ok []
  | seen, a :: l => do
    let b ← f seen a
    let bs ← scan keys f (keys b ++ seen) l
    return b :: bs

/-- What a scan leaves behind: every element has its property where it stands, and brings
keys that are new there. -/
def Scanned (keys : β → List κ) (P : List κ → β → Prop) : List κ → List β → Prop
  | _, [] => True
  | seen, b :: bs =>
    (P seen b ∧ (keys b).Disjoint seen) ∧ Scanned keys P (keys b ++ seen) bs

/-- All keys a scan has met at its end. -/
def seenAfter (keys : β → List κ) (seen : List κ) (bs : List β) : List κ :=
  bs.foldl (fun seen b => keys b ++ seen) seen

@[simp] theorem mem_seenAfter {k : κ} :
    k ∈ seenAfter keys seen bs ↔ k ∈ seen ∨ ∃ b ∈ bs, k ∈ keys b := by
  induction bs generalizing seen with
  | nil => simp [seenAfter]
  | cons b bs ih =>
    rw [show seenAfter keys seen (b :: bs) = seenAfter keys (keys b ++ seen) bs from rfl, ih]
    simp only [List.mem_append, List.mem_cons, exists_eq_or_imp]
    tauto

theorem scan_cons_eq_ok {a : α} : scan keys f seen (a :: l) = .ok bs ↔
    ∃ b cs, f seen a = .ok b ∧ scan keys f (keys b ++ seen) l = .ok cs ∧ b :: cs = bs := by
  simp only [scan, bind_eq_ok, pure_eq_ok]
  exact ⟨fun ⟨b, hb, cs, hcs, h⟩ => ⟨b, cs, hb, hcs, h⟩,
    fun ⟨b, cs, hb, hcs, h⟩ => ⟨b, hb, cs, hcs, h⟩⟩

/-- A scan of two lists goes on with the keys of the first. -/
theorem scan_append_eq_ok {l' : List α} : scan keys f seen (l ++ l') = .ok bs ↔
    ∃ cs ds, scan keys f seen l = .ok cs ∧ scan keys f (seenAfter keys seen cs) l' = .ok ds ∧
      cs ++ ds = bs := by
  induction l generalizing seen bs with
  | nil => simp [scan, seenAfter]
  | cons a l ih =>
    rw [List.cons_append, scan_cons_eq_ok]
    constructor
    · rintro ⟨b, rest, hb, hrest, rfl⟩
      obtain ⟨cs, ds, hcs, hds, rfl⟩ := ih.1 hrest
      exact ⟨b :: cs, ds, scan_cons_eq_ok.2 ⟨b, cs, hb, hcs, rfl⟩, hds, rfl⟩
    · rintro ⟨cs, ds, hcs, hds, rfl⟩
      obtain ⟨b, rest, hb, hrest, rfl⟩ := scan_cons_eq_ok.1 hcs
      exact ⟨b, rest ++ ds, hb, ih.2 ⟨rest, ds, hrest, hds, rfl⟩, rfl⟩

/-- A scan whose step checks `P` and the freshness of its keys leaves a scanned list. -/
theorem scanned_of_scan
    (hf : ∀ seen a b, f seen a = .ok b → P seen b ∧ (keys b).Disjoint seen)
    (h : scan keys f seen l = .ok bs) : Scanned keys P seen bs := by
  induction l generalizing seen bs with
  | nil => cases h; trivial
  | cons a l ih =>
    obtain ⟨b, cs, hb, hcs, rfl⟩ := scan_cons_eq_ok.1 h
    exact ⟨hf _ _ _ hb, ih hcs⟩

/-- With one key an element, a scanned list is one without repeated keys. -/
theorem scanned_singletons {k : β → κ} {Q : β → Prop} :
    Scanned (fun b => [k b]) (fun _ b => Q b) seen bs ↔
      (∀ b ∈ bs, Q b ∧ k b ∉ seen) ∧ (bs.map k).Nodup := by
  induction bs generalizing seen with
  | nil => simp [Scanned]
  | cons b bs ih =>
    simp only [Scanned, ih, List.singleton_disjoint, List.map_cons, List.nodup_cons]
    rw [List.forall_mem_cons]
    have hkey : k b ∉ bs.map k ↔ ∀ c ∈ bs, k c ≠ k b := by simp [List.mem_map]
    have hseen : ∀ c, k c ∉ [k b] ++ seen ↔ k c ≠ k b ∧ k c ∉ seen := by simp
    simp only [hkey, hseen]
    constructor
    · rintro ⟨hb, hbs, hn⟩
      exact ⟨⟨hb, fun c hc => ⟨(hbs c hc).1, (hbs c hc).2.2⟩⟩, fun c hc => (hbs c hc).2.1, hn⟩
    · rintro ⟨⟨hb, hbs⟩, hne, hn⟩
      exact ⟨hb, fun c hc => ⟨(hbs c hc).1, hne c hc, (hbs c hc).2⟩, hn⟩

/-- Elements whose keys are all different are a scanned list. -/
theorem scanned_of_nodup {Q : β → Prop} (hQ : ∀ b ∈ bs, Q b) (hapart : (bs.flatMap keys).Nodup)
    (hseen : (bs.flatMap keys).Disjoint seen) : Scanned keys (fun _ b => Q b) seen bs := by
  induction bs generalizing seen with
  | nil => trivial
  | cons b bs ih =>
    obtain ⟨hb, hbs⟩ := List.forall_mem_cons.1 hQ
    rw [List.flatMap_cons] at hapart hseen
    obtain ⟨-, hrest, hcross⟩ := List.nodup_append.1 hapart
    refine ⟨⟨hb, fun k hk => hseen (List.mem_append_left _ hk)⟩, ih hbs hrest fun k hk hk' => ?_⟩
    rcases List.mem_append.1 hk' with hk' | hk'
    · exact hcross k hk' k hk rfl
    · exact hseen (List.mem_append_right _ hk) hk'

theorem scan_length (h : scan keys f seen l = .ok bs) : bs.length = l.length := by
  induction l generalizing seen bs with
  | nil => cases h; rfl
  | cons a l ih =>
    obtain ⟨b, cs, -, hcs, rfl⟩ := scan_cons_eq_ok.1 h
    simp [ih hcs]

/-- Every element a scan leaves is made of the one in its place. -/
theorem scan_forall₂ (h : scan keys f seen l = .ok bs) :
    List.Forall₂ (fun a b => ∃ seen, f seen a = .ok b) l bs := by
  induction l generalizing seen bs with
  | nil =>
    cases h
    exact .nil
  | cons a l ih =>
    obtain ⟨b, cs, hb, hcs, rfl⟩ := scan_cons_eq_ok.1 h
    exact .cons ⟨seen, hb⟩ (ih hcs)

/-- A scan whose step returns what it reads returns the list. -/
theorem scan_eq_self {f : List κ → β → Except ε β} {l : List β}
    (hf : ∀ seen a b, f seen a = .ok b → a = b) (h : scan keys f seen l = .ok bs) : l = bs := by
  induction l generalizing seen bs with
  | nil => cases h; rfl
  | cons a l ih =>
    obtain ⟨b, cs, hb, hcs, rfl⟩ := scan_cons_eq_ok.1 h
    rw [hf _ _ _ hb, ih hcs]

theorem Scanned.disjoint (h : Scanned keys P seen bs) : ∀ b ∈ bs, (keys b).Disjoint seen := by
  induction bs generalizing seen with
  | nil => simp
  | cons b bs ih =>
    refine List.forall_mem_cons.2 ⟨h.1.2, fun c hc k hk hs => ?_⟩
    exact ih h.2 c hc hk (List.mem_append_right _ hs)

theorem Scanned.forall_mem {Q : β → Prop} (h : Scanned keys P seen bs)
    (hPQ : ∀ seen b, P seen b → Q b) : ∀ b ∈ bs, Q b := by
  induction bs generalizing seen with
  | nil => simp
  | cons b bs ih => exact List.forall_mem_cons.2 ⟨hPQ _ _ h.1.1, ih h.2⟩

/-- The elements of a scanned list are told apart by any of their keys. -/
theorem Scanned.eq_of_mem {b c : β} {k : κ} (h : Scanned keys P seen bs) (hb : b ∈ bs)
    (hc : c ∈ bs) (hkb : k ∈ keys b) (hkc : k ∈ keys c) : b = c := by
  induction bs generalizing seen with
  | nil => cases hb
  | cons d bs ih =>
    have hrest := h.2.disjoint
    rcases List.mem_cons.1 hb with hb' | hb' <;> rcases List.mem_cons.1 hc with hc' | hc'
    · rw [hb', hc']
    · exact (hrest c hc' hkc (List.mem_append_left _ (hb' ▸ hkb))).elim
    · exact (hrest b hb' hkb (List.mem_append_left _ (hc' ▸ hkc))).elim
    · exact ih h.2 hb' hc'

/-- A part of the keys is without repetitions in a scanned list. -/
theorem Scanned.nodup_map_mem {ι : Type} {g : β → ι} {k : ι → κ}
    (hk : ∀ b ∈ bs, k (g b) ∈ keys b) (h : Scanned keys P seen bs) : (bs.map g).Nodup := by
  induction bs generalizing seen with
  | nil => simp
  | cons b bs ih =>
    obtain ⟨hb, hbs⟩ := List.forall_mem_cons.1 hk
    rw [List.map_cons, List.nodup_cons]
    refine ⟨fun hmem => ?_, ih hbs h.2⟩
    obtain ⟨c, hc, he⟩ := List.mem_map.1 hmem
    exact h.2.disjoint c hc (he ▸ hbs c hc) (List.mem_append_left _ hb)

theorem Scanned.nodup_map {ι : Type} {g : β → ι} {k : ι → κ} (hk : ∀ b, k (g b) ∈ keys b)
    (h : Scanned keys P seen bs) : (bs.map g).Nodup := h.nodup_map_mem fun b _ => hk b

/-- Scanning the image of a scanned list gives the list back. -/
theorem scan_of_scanned {g : β → α}
    (hg : ∀ seen b, P seen b → (keys b).Disjoint seen → f seen (g b) = .ok b)
    (h : Scanned keys P seen bs) : scan keys f seen (bs.map g) = .ok bs := by
  induction bs generalizing seen with
  | nil => rfl
  | cons b bs ih =>
    exact scan_cons_eq_ok.2 ⟨b, bs, hg _ _ h.1.1 h.1.2, ih h.2, rfl⟩

/-- A scan whose step reads one form of each value, checks it and the freshness of its one key,
accepts just the lists of such forms. -/
theorem scan_eq_ok_iff {k : β → κ} {g : β → α} {Q : β → Prop}
    (hf : ∀ seen a b, f seen a = .ok b ↔ a = g b ∧ Q b ∧ k b ∉ seen) :
    scan (fun b => [k b]) f seen l = .ok bs ↔
      l = bs.map g ∧ (∀ b ∈ bs, Q b ∧ k b ∉ seen) ∧ (bs.map k).Nodup := by
  rw [← scanned_singletons]
  constructor
  · intro h
    have hs : Scanned (fun b => [k b]) (fun _ b => Q b) seen bs :=
      scanned_of_scan (fun seen a b hb => ⟨((hf seen a b).1 hb).2.1,
        List.singleton_disjoint.2 ((hf seen a b).1 hb).2.2⟩) h
    refine ⟨?_, hs⟩
    clear hs
    induction l generalizing seen bs with
    | nil => cases h; rfl
    | cons a l ih =>
      obtain ⟨b, cs, hb, hcs, rfl⟩ := scan_cons_eq_ok.1 h
      rw [List.map_cons, ← ih hcs, ((hf seen a b).1 hb).1]
  · rintro ⟨rfl, hs⟩
    exact scan_of_scanned (fun seen b hQ hd => (hf seen (g b) b).2
      ⟨rfl, hQ, List.singleton_disjoint.1 hd⟩) hs

theorem scanned_append : Scanned keys P seen (bs ++ cs) ↔
    Scanned keys P seen bs ∧ Scanned keys P (seenAfter keys seen bs) cs := by
  induction bs generalizing seen with
  | nil => simp [Scanned, seenAfter]
  | cons b bs ih => simp only [List.cons_append, Scanned, ih, seenAfter, List.foldl_cons, and_assoc]

theorem scanned_singleton : Scanned keys P seen [b] ↔ P seen b ∧ (keys b).Disjoint seen := by
  simp [Scanned]

/-- Replacing elements by ones with the same keys. -/
theorem Scanned.forall₂ (h : Scanned keys P seen bs)
    (h2 : List.Forall₂ (fun b c => keys c = keys b ∧ ∀ seen, P seen b → P seen c) bs cs) :
    Scanned keys P seen cs := by
  induction h2 generalizing seen with
  | nil => trivial
  | cons hbc _ ih =>
    obtain ⟨hk, hP⟩ := hbc
    refine ⟨⟨hP _ h.1.1, hk ▸ h.1.2⟩, ?_⟩
    rw [hk]
    exact ih h.2

theorem Scanned.map {g : β → β} (h : Scanned keys P seen bs) (hk : ∀ b, keys (g b) = keys b)
    (hP : ∀ b ∈ bs, ∀ seen, P seen b → P seen (g b)) : Scanned keys P seen (bs.map g) := by
  refine h.forall₂ (List.forall₂_map_right_iff.2 (List.forall₂_same.2 ?_))
  exact fun b hb => ⟨hk b, hP b hb⟩

/-- A table that has more keys at the start, none of them met in the list. -/
theorem Scanned.grow {seen' : List κ} (hP : ∀ s s' b, s ⊆ s' → P s b → P s' b)
    (hs : seen ⊆ seen') (hd : ∀ b ∈ bs, (keys b).Disjoint seen') (h : Scanned keys P seen bs) :
    Scanned keys P seen' bs := by
  induction bs generalizing seen seen' with
  | nil => trivial
  | cons b bs ih =>
    refine ⟨⟨hP _ _ _ hs h.1.1, hd b List.mem_cons_self⟩, ?_⟩
    refine ih (List.append_subset.2 ⟨List.subset_append_left _ _,
      fun k hk => List.mem_append_right _ (hs hk)⟩) (fun c hc k hk hk' => ?_) h.2
    rcases List.mem_append.1 hk' with hk' | hk'
    · exact h.2.disjoint c hc hk (List.mem_append_left _ hk')
    · exact hd c (List.mem_cons_of_mem _ hc) hk hk'

/-- Dropping elements. What the others still need of the table is `hP`, told that no key but the
lost ones has gone from it. -/
theorem Scanned.filter {q : β → Bool} {seen' : List κ} (lost : List κ)
    (hP : ∀ s s', ∀ b ∈ bs, (∀ k ∈ s, k ∉ lost → k ∈ s') → P s b → P s' b)
    (hq : ∀ b ∈ bs, q b = false → keys b ⊆ lost) (hs : seen' ⊆ seen)
    (hl : ∀ k ∈ seen, k ∉ lost → k ∈ seen') (h : Scanned keys P seen bs) :
    Scanned keys P seen' (bs.filter q) := by
  induction bs generalizing seen seen' with
  | nil => trivial
  | cons b bs ih =>
    have hP' := fun s s' c hc => hP s s' c (List.mem_cons_of_mem b hc)
    have hq' := fun c hc => hq c (List.mem_cons_of_mem b hc)
    by_cases hb : q b
    · rw [List.filter_cons_of_pos hb]
      refine ⟨⟨hP _ _ b List.mem_cons_self hl h.1.1, fun k hk hk' => h.1.2 hk (hs hk')⟩, ?_⟩
      refine ih hP' hq' (List.append_subset.2 ⟨List.subset_append_left _ _,
        fun k hk => List.mem_append_right _ (hs hk)⟩) (fun k hk hlost => ?_) h.2
      rcases List.mem_append.1 hk with hk | hk
      · exact List.mem_append_left _ hk
      · exact List.mem_append_right _ (hl k hk hlost)
    · rw [List.filter_cons_of_neg hb]
      refine ih hP' hq' (fun k hk => List.mem_append_right _ (hs hk)) (fun k hk hlost => ?_) h.2
      rcases List.mem_append.1 hk with hk | hk
      · exact absurd (hq b List.mem_cons_self (by simpa using hb) hk) hlost
      · exact hl k hk hlost

/-- Among elements with keys of their own, erasing the first of a kind erases the kind. -/
theorem Scanned.eraseP_eq_filter {q : β → Bool}
    (hq : ∀ b c, q b = true → q c = true → ∃ k ∈ keys b, k ∈ keys c)
    (h : Scanned keys P seen bs) : bs.eraseP q = bs.filter fun b => !q b := by
  induction bs generalizing seen with
  | nil => rfl
  | cons b bs ih =>
    by_cases hb : q b
    · have hrest : ∀ c ∈ bs, (!q c) = true := by
        intro c hc
        by_contra hqc
        obtain ⟨k, hk, hk'⟩ := hq b c hb (by simpa using hqc)
        exact h.2.disjoint c hc hk' (List.mem_append_left _ hk)
      rw [List.eraseP_cons_of_pos hb, List.filter_cons_of_neg (by simp [hb]),
        List.filter_eq_self.2 hrest]
    · rw [List.eraseP_cons_of_neg hb, List.filter_cons_of_pos (by simp [hb]), ih h.2]

end Scan

end Foxhole.Check
