import Mathlib.Computability.Language
import Mathlib.Tactic.Common

/-! Regular expressions over predicate classes, matched by derivatives and given their
meaning as languages. -/
namespace Foxhole

inductive Regex (α : Type) where
  | empty
  | eps
  | cls (p : α → Bool)
  | seq (r s : Regex α)
  | alt (r s : Regex α)
  | star (r : Regex α)

namespace Regex
variable {α : Type} {r s : Regex α} {a : α} {u v w : List α} {p : α → Bool} {n : ℕ}
  {l m : Language α}

/-- The words an expression stands for. -/
def lang : Regex α → Language α
  | empty => 0
  | eps => 1
  | cls p => {w | ∃ a, p a = true ∧ w = [a]}
  | seq r s => r.lang * s.lang
  | alt r s => r.lang + s.lang
  | star r => KStar.kstar r.lang

def nullable : Regex α → Bool
  | empty => false
  | eps => true
  | cls _ => false
  | seq r s => r.nullable && s.nullable
  | alt r s => r.nullable || s.nullable
  | star _ => true

/-- Sequencing that drops dead and finished heads, so that derivatives stay small. -/
def mkSeq : Regex α → Regex α → Regex α
  | empty, _ => empty
  | eps, s => s
  | r, s => seq r s

def mkAlt : Regex α → Regex α → Regex α
  | empty, s => s
  | r, empty => r
  | r, s => alt r s

/-- What is left to match after reading `a`. -/
def deriv (a : α) : Regex α → Regex α
  | empty => empty
  | eps => empty
  | cls p => if p a then eps else empty
  | seq r s =>
    if r.nullable then mkAlt (mkSeq (r.deriv a) s) (s.deriv a) else mkSeq (r.deriv a) s
  | alt r s => mkAlt (r.deriv a) (s.deriv a)
  | star r => mkSeq (r.deriv a) (star r)

def accepts (r : Regex α) : List α → Bool
  | [] => r.nullable
  | a :: w => (r.deriv a).accepts w

theorem lang_mkSeq : (mkSeq r s).lang = r.lang * s.lang := by
  unfold mkSeq; split <;> simp [lang]

theorem lang_mkAlt : (mkAlt r s).lang = r.lang + s.lang := by
  unfold mkAlt; split <;> simp [lang]

theorem nullable_iff : r.nullable = true ↔ [] ∈ r.lang := by
  induction r with
  | empty => simp [nullable, lang, Language.notMem_zero]
  | eps => simp [nullable, lang, Language.mem_one]
  | cls p =>
    simp only [nullable, lang, Bool.false_eq_true, false_iff]
    rintro ⟨a, -, h⟩
    cases h
  | seq r s ihr ihs =>
    simp only [nullable, Bool.and_eq_true, ihr, ihs, lang, Language.mem_mul]
    exact ⟨fun ⟨hr, hs⟩ => ⟨[], hr, [], hs, rfl⟩, fun ⟨u, hu, v, hv, h⟩ => by
      obtain ⟨rfl, rfl⟩ := List.append_eq_nil_iff.1 h
      exact ⟨hu, hv⟩⟩
  | alt r s ihr ihs => simp [nullable, lang, Language.mem_add, ihr, ihs]
  | star r _ => simp [nullable, lang, Language.nil_mem_kstar]

/-- A first letter of a product is read by the first factor, or by the second behind an
empty first factor. -/
theorem cons_mem_mul : a :: w ∈ l * m ↔
    (∃ u v, w = u ++ v ∧ a :: u ∈ l ∧ v ∈ m) ∨ ([] ∈ l ∧ a :: w ∈ m) := by
  rw [Language.mem_mul]
  constructor
  · rintro ⟨_ | ⟨b, u⟩, hu, v, hv, h⟩
    · exact Or.inr ⟨hu, by simpa using h ▸ hv⟩
    · obtain ⟨rfl, rfl⟩ := List.cons.inj h
      exact Or.inl ⟨u, v, rfl, hu, hv⟩
  · rintro (⟨u, v, rfl, hu, hv⟩ | ⟨hl, hw⟩)
    · exact ⟨a :: u, hu, v, hv, rfl⟩
    · exact ⟨[], hl, a :: w, hw, rfl⟩

/-- A first letter of an iteration is read by a nonempty first round. -/
theorem cons_mem_kstar : a :: w ∈ KStar.kstar l ↔
    ∃ u v, w = u ++ v ∧ a :: u ∈ l ∧ v ∈ KStar.kstar l := by
  constructor
  · rw [Language.mem_kstar_iff_exists_nonempty]
    rintro ⟨_ | ⟨x, ws⟩, hw, hx⟩
    · cases hw
    · obtain ⟨hxl, hne⟩ := hx x List.mem_cons_self
      obtain ⟨b, u, rfl⟩ := List.exists_cons_of_ne_nil hne
      obtain ⟨rfl, rfl⟩ := List.cons.inj hw
      exact ⟨u, ws.flatten, rfl, hxl,
        Language.join_mem_kstar fun y hy => (hx y (List.mem_cons_of_mem _ hy)).1⟩
  · rintro ⟨u, v, rfl, hu, hv⟩
    obtain ⟨ws, rfl, hws⟩ := Language.mem_kstar.1 hv
    exact Language.mem_kstar.2 ⟨(a :: u) :: ws, rfl, by simpa using ⟨hu, hws⟩⟩

theorem mem_deriv : w ∈ (r.deriv a).lang ↔ a :: w ∈ r.lang := by
  induction r generalizing w with
  | empty => simp [deriv, lang, Language.notMem_zero]
  | eps => simp [deriv, lang, Language.notMem_zero, Language.mem_one]
  | cls p =>
    have h : a :: w ∈ (cls p).lang ↔ p a = true ∧ w = [] := by
      constructor
      · rintro ⟨b, hb, he⟩
        cases he
        exact ⟨hb, rfl⟩
      · rintro ⟨ha, rfl⟩
        exact ⟨a, ha, rfl⟩
    rw [h]
    by_cases hp : p a <;> simp [deriv, hp, lang, Language.notMem_zero, Language.mem_one]
  | seq r s ihr ihs =>
    have hseq : w ∈ (mkSeq (r.deriv a) s).lang ↔
        ∃ u v, w = u ++ v ∧ a :: u ∈ r.lang ∧ v ∈ s.lang := by
      simp only [lang_mkSeq, Language.mem_mul, ihr]
      exact ⟨fun ⟨u, hu, v, hv, h⟩ => ⟨u, v, h.symm, hu, hv⟩,
        fun ⟨u, v, h, hu, hv⟩ => ⟨u, hu, v, hv, h.symm⟩⟩
    rw [show (seq r s).lang = r.lang * s.lang from rfl, cons_mem_mul]
    by_cases hn : r.nullable
    · simp [deriv, hn, lang_mkAlt, Language.mem_add, hseq, ihs, nullable_iff.1 hn]
    · have : [] ∉ r.lang := fun h => hn (nullable_iff.2 h)
      simp [deriv, hn, hseq, this]
  | alt r s ihr ihs => simp [deriv, lang_mkAlt, lang, Language.mem_add, ihr, ihs]
  | star r ih =>
    simp only [deriv, lang_mkSeq, lang, Language.mem_mul, ih, cons_mem_kstar]
    exact ⟨fun ⟨u, hu, v, hv, h⟩ => ⟨u, v, h.symm, hu, hv⟩,
      fun ⟨u, v, h, hu, hv⟩ => ⟨u, hu, v, hv, h.symm⟩⟩

/-- The derivative matcher decides the language. -/
theorem accepts_iff : r.accepts w = true ↔ w ∈ r.lang := by
  induction w generalizing r with
  | nil => exact nullable_iff
  | cons a w ih => exact ih.trans mem_deriv

theorem mem_lang_seq : w ∈ (seq r s).lang ↔ ∃ u v, w = u ++ v ∧ u ∈ r.lang ∧ v ∈ s.lang := by
  rw [show (seq r s).lang = r.lang * s.lang from rfl, Language.mem_mul]
  exact ⟨fun ⟨u, hu, v, hv, h⟩ => ⟨u, v, h.symm, hu, hv⟩,
    fun ⟨u, v, h, hu, hv⟩ => ⟨u, hu, v, hv, h.symm⟩⟩

theorem mem_lang_cls_seq :
    w ∈ (seq (cls p) r).lang ↔ ∃ a v, w = a :: v ∧ p a = true ∧ v ∈ r.lang := by
  rw [mem_lang_seq]
  constructor
  · rintro ⟨_, v, rfl, ⟨a, ha, rfl⟩, hv⟩
    exact ⟨a, v, rfl, ha, hv⟩
  · rintro ⟨a, v, rfl, ha, hv⟩
    exact ⟨[a], v, rfl, ⟨a, ha, rfl⟩, hv⟩

/-- The one word `w`. -/
def lit [BEq α] : List α → Regex α
  | [] => eps
  | a :: w => seq (cls (· == a)) (lit w)

/-- Exactly `n` rounds of `r`. -/
def rep : ℕ → Regex α → Regex α
  | 0, _ => eps
  | n + 1, r => seq r (rep n r)

/-- At most `n` rounds of `r`. -/
def upTo : ℕ → Regex α → Regex α
  | 0, _ => eps
  | n + 1, r => alt eps (seq r (upTo n r))

def plus (r : Regex α) : Regex α := seq r (star r)

def opt (r : Regex α) : Regex α := alt eps r

theorem lang_lit [BEq α] [LawfulBEq α] : w ∈ (lit u).lang ↔ w = u := by
  induction u generalizing w with
  | nil => exact Language.mem_one w
  | cons a u ih =>
    simp only [lit, mem_lang_cls_seq, beq_iff_eq]
    constructor
    · rintro ⟨b, v, rfl, rfl, hv⟩
      rw [ih.1 hv]
    · rintro rfl
      exact ⟨a, u, rfl, rfl, ih.2 rfl⟩

theorem lang_rep_cls : w ∈ (rep n (cls p)).lang ↔ w.length = n ∧ ∀ a ∈ w, p a = true := by
  induction n generalizing w with
  | zero =>
    rw [show (rep 0 (cls p)).lang = 1 from rfl, Language.mem_one, List.length_eq_zero_iff]
    exact ⟨by rintro rfl; simp, And.left⟩
  | succ n ih =>
    simp only [rep, mem_lang_cls_seq, ih]
    constructor
    · rintro ⟨a, v, rfl, ha, hn, hv⟩
      exact ⟨by simp [hn], by simpa using ⟨ha, hv⟩⟩
    · rintro ⟨hn, hw⟩
      obtain ⟨a, v, rfl⟩ := List.exists_cons_of_length_eq_add_one hn
      exact ⟨a, v, rfl, hw a (by simp), by simpa using hn, fun b hb => hw b (by simp [hb])⟩

theorem lang_star_cls : w ∈ (star (cls p)).lang ↔ ∀ a ∈ w, p a = true := by
  rw [show (star (cls p)).lang = KStar.kstar (cls p).lang from rfl, Language.mem_kstar]
  constructor
  · rintro ⟨ws, rfl, hws⟩ a ha
    obtain ⟨x, hx, hax⟩ := List.mem_flatten.1 ha
    obtain ⟨b, hb, rfl⟩ := hws x hx
    simpa [List.mem_singleton.1 hax] using hb
  · intro hw
    refine ⟨w.map fun a => [a], by simp [List.flatten_eq_flatMap, List.flatMap_map], ?_⟩
    intro y hy
    obtain ⟨a, ha, rfl⟩ := List.mem_map.1 hy
    exact ⟨a, hw a ha, rfl⟩

/-- Every class of the expression is closed under `f`. -/
def Stable (f : α → α) : Regex α → Prop
  | empty => True
  | eps => True
  | cls p => ∀ a, p a = true → p (f a) = true
  | seq r s => r.Stable f ∧ s.Stable f
  | alt r s => r.Stable f ∧ s.Stable f
  | star r => r.Stable f

theorem Stable.rep {f : α → α} (h : r.Stable f) : (rep n r).Stable f := by
  induction n with
  | zero => trivial
  | succ n ih => exact ⟨h, ih⟩

/-- A language all of whose letters may be replaced is closed under replacing them. -/
theorem Stable.map_mem {f : α → α} (h : r.Stable f) (hw : w ∈ r.lang) : w.map f ∈ r.lang := by
  induction r generalizing w with
  | empty => exact hw
  | eps =>
    obtain rfl : w = [] := hw
    exact Language.nil_mem_one
  | cls p =>
    obtain ⟨a, ha, rfl⟩ := hw
    exact ⟨f a, h a ha, rfl⟩
  | seq r s ihr ihs =>
    obtain ⟨u, v, rfl, hu, hv⟩ := mem_lang_seq.1 hw
    rw [List.map_append]
    exact mem_lang_seq.2 ⟨_, _, rfl, ihr h.1 hu, ihs h.2 hv⟩
  | alt r s ihr ihs => exact Or.imp (ihr h.1) (ihs h.2) hw
  | star r ih =>
    obtain ⟨ws, rfl, hws⟩ := Language.mem_kstar.1 hw
    rw [List.map_flatten]
    refine Language.join_mem_kstar fun y hy => ?_
    obtain ⟨x, hx, rfl⟩ := List.mem_map.1 hy
    exact ih h (hws x hx)

theorem Stable.accepts_map {f : α → α} (h : r.Stable f) (hw : r.accepts w = true) :
    r.accepts (w.map f) = true := accepts_iff.2 (h.map_mem (accepts_iff.1 hw))

/-- Every letter of a word that matches satisfies a property all classes imply. -/
def Within (q : α → Prop) : Regex α → Prop
  | empty => True
  | eps => True
  | cls p => ∀ a, p a = true → q a
  | seq r s => r.Within q ∧ s.Within q
  | alt r s => r.Within q ∧ s.Within q
  | star r => r.Within q

theorem Within.rep {q : α → Prop} (h : r.Within q) : (rep n r).Within q := by
  induction n with
  | zero => trivial
  | succ n ih => exact ⟨h, ih⟩

theorem Within.upTo {q : α → Prop} (h : r.Within q) : (upTo n r).Within q := by
  induction n with
  | zero => trivial
  | succ n ih => exact ⟨trivial, h, ih⟩

theorem Within.forall_mem {q : α → Prop} (h : r.Within q) (hw : w ∈ r.lang) : ∀ a ∈ w, q a := by
  induction r generalizing w with
  | empty => exact (Language.notMem_zero w hw).elim
  | eps =>
    obtain rfl : w = [] := hw
    simp
  | cls p =>
    obtain ⟨a, ha, rfl⟩ := hw
    simpa using h a ha
  | seq r s ihr ihs =>
    obtain ⟨u, v, rfl, hu, hv⟩ := mem_lang_seq.1 hw
    intro a ha
    exact (List.mem_append.1 ha).elim (ihr h.1 hu a) (ihs h.2 hv a)
  | alt r s ihr ihs => exact hw.elim (ihr h.1) (ihs h.2)
  | star r ih =>
    obtain ⟨ws, rfl, hws⟩ := Language.mem_kstar.1 hw
    intro a ha
    obtain ⟨x, hx, hax⟩ := List.mem_flatten.1 ha
    exact ih h (hws x hx) a hax

theorem length_le_of_upTo (h : w ∈ (upTo n (cls p)).lang) : w.length ≤ n := by
  induction n generalizing w with
  | zero =>
    obtain rfl : w = [] := h
    exact Nat.zero_le _
  | succ n ih =>
    rcases (Language.mem_add _ _ _).1 h with h | h
    · obtain rfl : w = [] := h
      exact Nat.zero_le _
    · obtain ⟨c, rest, rfl, -, hrest⟩ := mem_lang_cls_seq.1 h
      exact Nat.succ_le_succ (ih hrest)

/-- A literal head followed by `n` letters of a class: the shape of a tagged identifier. -/
theorem accepts_lit_rep [BEq α] [LawfulBEq α] : (seq (lit u) (rep n (cls p))).accepts w = true ↔
    ∃ v, w = u ++ v ∧ v.length = n ∧ ∀ a ∈ v, p a = true := by
  simp only [accepts_iff, mem_lang_seq, lang_lit, lang_rep_cls]
  exact ⟨fun ⟨_, v, h, hu, hv⟩ => ⟨v, hu ▸ h, hv⟩, fun ⟨v, h, hv⟩ => ⟨u, v, h, rfl, hv⟩⟩

theorem accepts_rep_cls :
    (rep n (cls p)).accepts w = true ↔ w.length = n ∧ ∀ a ∈ w, p a = true :=
  accepts_iff.trans lang_rep_cls

theorem accepts_plus_cls :
    (plus (cls p)).accepts w = true ↔ w ≠ [] ∧ ∀ a ∈ w, p a = true := by
  simp only [accepts_iff, plus, mem_lang_cls_seq, lang_star_cls]
  constructor
  · rintro ⟨a, v, rfl, ha, hv⟩
    exact ⟨by simp, by simpa using ⟨ha, hv⟩⟩
  · rintro ⟨hne, hw⟩
    obtain ⟨a, v, rfl⟩ := List.exists_cons_of_ne_nil hne
    exact ⟨a, v, rfl, hw a (by simp), fun b hb => hw b (by simp [hb])⟩

end Regex
end Foxhole
