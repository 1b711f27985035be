import Foxhole.PolicyChecked

/-! Site patterns as the panel writes them: frontend-model.js. Letters and blanks are those of
ASCII. -/
namespace Foxhole.Panel
open Check Text Policy

/-- What the browser makes of the text of a URL. -/
structure Url where
  hostname : Text
  username : Text
  password : Text
  port : Text
  pathname : Text
  search : Text
  hash : Text
deriving DecidableEq

/-- `new URL(text)`; none where it throws. -/
abbrev Browser := Text → Option Url

/-- `\s`, and what `trim` takes off. -/
def isBlank (c : Char) : Bool := c = ' ' || (9 ≤ c.toNat && c.toNat ≤ 13)

def trimBlanks (t : Text) : Text := (t.dropWhile isBlank).rdropWhile isBlank

/-- `[\s\u0000-\u001f\u007f]` -/
def isRejected (c : Char) : Bool := isBlank c || c.toNat < 32 || c.toNat = 127

def isAscii (c : Char) : Bool := c.toNat < 128

/-- `^https?:\/\/`, in either case -/
def hasScheme (raw : Text) : Bool := (stripHttp (lc raw)).isSome

def urlHost (browser : Browser) (raw : Text) : Except Err Text :=
  match browser raw with
  | none => .error .invalidSite
  | some url => do
    require (url.hostname ≠ [] ∧ url.username = [] ∧ url.password = [] ∧ url.port = []) .invalidSite
    require (url.pathname = "/".toList ∨ url.pathname = "/*".toList) .sitePathUnsupported
    require (url.search = [] ∧ url.hash = []) .sitePathUnsupported
    return lc url.hostname

/-- The wrapping `||...^` taken off. -/
def unwrap (raw : Text) : Except Err Text :=
  if "||".toList <+: raw then do
    require ((raw.drop 2).getLast? = some '^') .invalidSite
    return (raw.drop 2).dropLast
  else .ok raw

def asciiLabel (browser : Browser) (label : Text) : Option Text :=
  if label.all isAscii then some label
  else if '*' ∈ label ∨ '?' ∈ label then none
  else do
    let url ← browser ("http://".toList ++ label ++ ".invalid".toList)
    url.hostname.dropSuffix? ".invalid".toList

def asciiHost (browser : Browser) (value : Text) : Option Text :=
  if value.all isAscii then some value
  else (['.'].intercalate ·) <$> (value.splitOn '.').mapM (asciiLabel browser)

/-- `[a-z0-9?*.-]` in either case -/
def isMaskChar (c : Char) : Bool := isAlnum c || c = '?' || c = '*' || c = '.' || c = '-'

def validHostMask (value : Text) : Bool :=
  value ≠ [] && value.length ≤ 253 && '.' ∈ value && value.any isAlnum && value.all isMaskChar &&
  (value.splitOn '.').all fun label =>
    label ≠ [] && label.length ≤ 63 && label.head? ≠ some '-' && label.getLast? ≠ some '-' &&
    label.any fun c => isAlnum c || c = '*' || c = '?'

def normalizeSitePattern (browser : Browser) (value : Text) : Except Err Text := do
  let raw := trimBlanks value
  require (raw ≠ [] ∧ ∀ c ∈ raw, isRejected c = false) .invalidSite
  let raw ← if hasScheme raw then urlHost browser raw else .ok raw
  require (¬ "://".toList <:+: raw ∧ '/' ∉ raw ∧ '#' ∉ raw) .invalidSite
  let raw ← unwrap (lc raw)
  match asciiHost browser (stripDots raw) with
  | none => .error .invalidSite
  | some host => do
    require (host ≠ [] ∧ validHostMask host = true) .invalidSite
    return host

variable {browser : Browser} {v p t : Text} {c : Char}

/-! What the panel accepts has the shape that the router stores. -/

theorem stripDots_sublist : (stripDots t).Sublist t := by
  have htail : (if t.head? = some '.' then t.tail else t).Sublist t := by
    split
    · exact t.tail_sublist
    · exact List.Sublist.refl t
  unfold stripDots
  generalize (if t.head? = some '.' then t.tail else t) = head at htail
  change (if head.getLast? = some '.' then head.dropLast else head).Sublist t
  split
  · exact (List.dropLast_sublist _).trans htail
  · exact htail

theorem unwrap_sublist (h : unwrap t = .ok v) : v.Sublist t := by
  unfold unwrap at h
  split at h
  · simp only [bind_eq_ok, require_eq_ok, pure_eq_ok] at h
    obtain ⟨_, -, rfl⟩ := h
    exact (List.dropLast_sublist _).trans (List.drop_sublist 2 _)
  · cases h
    exact List.Sublist.refl _

theorem isSiteChar_of_mask (h : isMaskChar c = true) (hu : isUpper c = false) :
    isSiteChar c = true := by
  simp only [isMaskChar, isAlnum, hu, Bool.or_false, Bool.or_eq_true, decide_eq_true_eq] at h
  simp only [isSiteChar, Bool.or_eq_true, decide_eq_true_eq]
  tauto

/-- Two dots in a row leave an empty label. -/
theorem nil_mem_splitOn (h : ['.', '.'] <:+: t) : [] ∈ t.splitOn '.' := by
  obtain ⟨front, back, rfl⟩ := h
  rw [List.splitOn_eq_splitOnP, List.append_assoc]
  change [] ∈ (front ++ '.' :: ([] ++ '.' :: back)).splitOnP (· == '.')
  rw [List.splitOnP_append_cons front _ (by simp), List.splitOnP_append_cons [] back (by simp)]
  simp

theorem sitePattern_of_mask (h : validHostMask p = true) (hu : ∀ c ∈ p, isUpper c = false) :
    SitePattern p := by
  simp only [validHostMask, Bool.and_eq_true, decide_eq_true_eq, List.all_eq_true, List.any_eq_true,
    ne_eq] at h
  obtain ⟨⟨⟨⟨⟨-, hlength⟩, hdot⟩, c, hc, halnum⟩, hchars⟩, hlabels⟩ := h
  refine ⟨hlength, hdot, fun c hc => isSiteChar_of_mask (hchars c hc) (hu c hc), ?_, ?_, ?_, ?_⟩
  · intro hmem
    have := hchars '_' hmem
    revert this
    decide
  · intro hdots
    exact (hlabels [] (nil_mem_splitOn hdots)).1.1.1.1 rfl
  · refine ⟨c, hc, ?_⟩
    simp only [isAlnum, hu c hc, Bool.or_false] at halnum
    rw [Bool.or_comm]
    exact halnum
  · intro label hl
    obtain ⟨⟨⟨⟨hne, hshort⟩, hhead⟩, hlast⟩, -⟩ := hlabels label hl
    exact ⟨hne, hshort, hhead, hlast⟩

theorem trimBlanks_eq_self (h : ∀ c ∈ t, isBlank c = false) : trimBlanks t = t := by
  unfold trimBlanks
  rw [List.dropWhile_eq_self_iff.2 fun hl => by simpa using h _ (List.getElem_mem hl),
    List.rdropWhile_eq_self_iff.2 fun hl => by simpa using h _ (List.getLast_mem hl)]

theorem siteChar_range (h : isSiteChar c = true) : 42 ≤ c.toNat ∧ c.toNat ≤ 122 := by
  simp only [isSiteChar, isLower, isDigit, Bool.or_eq_true, Bool.and_eq_true, decide_eq_true_eq,
    Char.le_def, UInt32.le_iff_toNat_le] at h
  change ((((((97 ≤ c.toNat ∧ c.toNat ≤ 122) ∨ (48 ≤ c.toNat ∧ c.toNat ≤ 57)) ∨ c = '*') ∨
    c = '?') ∨ c = '_') ∨ c = '.') ∨ c = '-' at h
  rcases h with (((((h | h) | rfl) | rfl) | rfl) | rfl) | rfl
  · omega
  · omega
  all_goals decide

theorem isAscii_lcChar (h : isAscii c = true) : isAscii (lcChar c) = true := by
  by_cases hu : isUpper c
  · have hr := isUpper_iff.1 hu
    rw [lcChar, if_pos hu]
    generalize c.toNat = n at hr
    obtain ⟨hlow, hhigh⟩ := hr
    interval_cases n <;> decide
  · rwa [lcChar, if_neg hu]

/-- A letter of a pattern is no blank, no control character and plain ASCII. -/
theorem siteChar_plain (h : isSiteChar c = true) : isRejected c = false ∧ isAscii c = true ∧
    c ≠ '/' ∧ c ≠ '#' ∧ c ≠ ':' ∧ c ≠ '|' := by
  obtain ⟨-, -, hcolon, hbar⟩ := isSiteChar_cases h
  have hrange := siteChar_range h
  refine ⟨?_, ?_, ?_, ?_, hcolon, hbar⟩
  · have hspace : c ≠ ' ' := by
      rintro rfl
      revert h
      decide
    simp only [isRejected, isBlank, hspace, decide_false, Bool.false_or, Bool.or_eq_false_iff,
      Bool.and_eq_false_iff, decide_eq_false_iff_not]
    omega
  · simp only [isAscii, decide_eq_true_eq]
    omega
  · rintro rfl
    revert h
    decide
  · rintro rfl
    revert h
    decide

/-- A pattern that the panel accepts is its own normal form there as well. -/
theorem normalizeSitePattern_self (hp : SitePattern p) (hmask : validHostMask p = true) :
    normalizeSitePattern browser p = .ok p := by
  have hplain := fun c hc => siteChar_plain (hp.2.2.1 c hc)
  have hne : p ≠ [] := by
    rintro rfl
    simp [validHostMask] at hmask
  have hlower : lc p = p := lc_eq_self fun c hc => (isSiteChar_cases (hp.2.2.1 c hc)).1
  have htrim : trimBlanks p = p := trimBlanks_eq_self fun c hc => by
    have := (hplain c hc).1
    simp only [isRejected, Bool.or_eq_false_iff] at this
    exact this.1.1
  have hscheme : hasScheme p = false := by
    unfold hasScheme
    rw [hlower, stripHttp_eq_none fun hc => (hplain _ hc).2.2.2.2.1 rfl]
    rfl
  have hseparator : ¬ "://".toList <:+: p := fun hsub =>
    (hplain ':' (hsub.subset (by decide))).2.2.2.2.1 rfl
  have hunwrap : unwrap p = .ok p := by
    unfold unwrap
    rw [if_neg]
    exact fun hsub => (hplain '|' (hsub.subset (by decide))).2.2.2.2.2 rfl
  have hascii : asciiHost browser p = some p := by
    unfold asciiHost
    rw [if_pos (List.all_eq_true.2 fun c hc => (hplain c hc).2.1)]
  unfold normalizeSitePattern
  simp only [htrim, hscheme, Bool.false_eq_true, if_false]
  refine bind_eq_ok.2 ⟨(), require_eq_ok.2 ⟨hne, fun c hc => (hplain c hc).1⟩, ?_⟩
  refine bind_eq_ok.2 ⟨p, rfl, bind_eq_ok.2 ⟨(), require_eq_ok.2 ⟨hseparator, ?_, ?_⟩, ?_⟩⟩
  · exact fun hc => (hplain _ hc).2.2.1 rfl
  · exact fun hc => (hplain _ hc).2.2.2.1 rfl
  refine bind_eq_ok.2 ⟨p, by rw [hlower]; exact hunwrap, ?_⟩
  rw [stripDots_sitePattern hp, hascii]
  exact bind_eq_ok.2 ⟨(), require_eq_ok.2 ⟨hne, hmask⟩, rfl⟩

/-- What is left of an ASCII text without a scheme has been put into lower case and checked. -/
theorem normalizeSitePattern_ok (hascii : ∀ c ∈ v, isAscii c = true)
    (hscheme : hasScheme (trimBlanks v) = false) (h : normalizeSitePattern browser v = .ok p) :
    SitePattern p ∧ validHostMask p = true := by
  unfold normalizeSitePattern at h
  simp only [hscheme, Bool.false_eq_true, if_false, bind_eq_ok, require_eq_ok] at h
  obtain ⟨_, -, raw, hraw, _, -, inner, hinner, h⟩ := h
  cases hraw
  have hsub : (stripDots inner).Sublist (lc (trimBlanks v)) :=
    stripDots_sublist.trans (unwrap_sublist hinner)
  have hblanks : (trimBlanks v).Sublist v :=
    (List.rdropWhile_prefix _ _).sublist.trans (List.dropWhile_suffix _).sublist
  have hall : (stripDots inner).all isAscii = true := by
    refine List.all_eq_true.2 fun c hc => ?_
    obtain ⟨d, hd, rfl⟩ := List.mem_map.1 (hsub.subset hc)
    exact isAscii_lcChar (hascii d (hblanks.subset hd))
  have hlower : ∀ c ∈ stripDots inner, isUpper c = false := by
    intro c hc
    obtain ⟨d, -, rfl⟩ := List.mem_map.1 (hsub.subset hc)
    exact lcChar_not_upper
  rw [asciiHost, if_pos hall] at h
  simp only [bind_eq_ok, require_eq_ok, pure_eq_ok] at h
  obtain ⟨_, ⟨-, hmask⟩, rfl⟩ := h
  exact ⟨sitePattern_of_mask hmask hlower, hmask⟩

/-- A pattern that the panel makes of an ASCII text without a scheme is stored by the router as
it is, and both compare it by its own letters. -/
theorem normalizeSitePattern_router (hascii : ∀ c ∈ v, isAscii c = true)
    (hscheme : hasScheme (trimBlanks v) = false) (h : normalizeSitePattern browser v = .ok p) :
    normalizeSite (.value p) = .ok p ∧ normalizeSitePattern browser p = .ok p ∧ lc p = p := by
  obtain ⟨hp, hmask⟩ := normalizeSitePattern_ok hascii hscheme h
  exact ⟨normalizeSite_sitePattern hp, normalizeSitePattern_self hp hmask,
    lc_eq_self fun c hc => (isSiteChar_cases (hp.2.2.1 c hc)).1⟩

theorem normalizeSitePattern_adblock :
    normalizeSitePattern (fun _ => none) " ||.*.Example.COM.^ ".toList =
      .ok "*.example.com".toList ∧
    normalizeSite (.value "*.example.com".toList) = .ok "*.example.com".toList := by
  have h : normalizeSitePattern (fun _ => none) " ||.*.Example.COM.^ ".toList =
      .ok "*.example.com".toList := by decide
  exact ⟨h, (normalizeSitePattern_router (by decide) (by decide) h).1⟩

end Foxhole.Panel
