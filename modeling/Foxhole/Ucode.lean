import Foxhole.Lib.Regex
import Mathlib.Data.Char
import Mathlib.Data.List.DropRight
import Mathlib.Data.List.Lex
import Mathlib.Tactic.IntervalCases

/-! The pieces of the ucode language and its string library that the sources use. -/
namespace Foxhole

/-- A ucode string, one character for each byte. -/
abbrev Text := List Char

instance (priority := 2000) Text.lawful : LawfulBEq Text := inferInstance

/-- What is said of the letters of a text is decided over its letters, not over all there are. -/
instance (priority := 2000) {p : Char → Prop} [DecidablePred p] (t : Text) :
    Decidable (∀ c ∈ t, p c) := List.decidableBAll p t

instance (priority := 2000) {p : Char → Prop} [DecidablePred p] (t : Text) :
    Decidable (∃ c ∈ t, p c) := List.decidableBEx p t

/-- A member of a decoded JSON object. Missing and null coincide; `invalid` is a value of a
type the member never has. -/
inductive Field (α : Type) where
  | missing
  | invalid
  | value (a : α)
deriving DecidableEq

namespace Field
variable {α : Type} {a : α}

/-- The value of a well-typed member. -/
def value? : Field α → Option α
  | value a => some a
  | _ => none

def ofOption : Option α → Field α
  | some a => value a
  | none => missing

@[simp] theorem value?_value : (value a).value? = some a := rfl
@[simp] theorem value?_missing : (missing : Field α).value? = none := rfl
@[simp] theorem value?_invalid : (invalid : Field α).value? = none := rfl
@[simp] theorem ofOption_some : ofOption (some a) = value a := rfl
@[simp] theorem ofOption_none : ofOption (none : Option α) = missing := rfl

end Field

/-- The codes the sources die with. -/
inductive Err where
  | storageError | invalidSettings | invalidName | invalidAddress | invalidMac | macNotFound
  | invalidSite | sitePathUnsupported | duplicateRule | invalidConfig | unsupportedConfig
  | revisionConflict | notFound | clientLimit | inboundRequired | clientRulesUnsupported
  | sitePatternUnsupported | serverNotFound | invalidInterface | invalidDnsUid
  | pairingConflict | pairingLimit | invalidPairing | clientRevoked | unauthorized
  | runtimeUnavailable | unavailable | publicAddressRequired | pinRequired
  | invalidPin | pinCooldown | pinMismatch | pinSetupRequired | luciRequired | licenseRequired
  | locked
  | invalidState | runtimeMissing | resolveFailed | invalidCountry | countryFetchFailed
  | countryDataInvalid | countryDataTooLarge | dnsmasqNftsetRequired | policyInvalid
  | policyApplyFailed | routeApplyFailed | dnsmasqApplyFailed | tunnelMissing
  | tunnelStartFailed | tunnelExited | runtimeStopped
  | updateInvalidRequest | updateAuthenticationFailed | updateStalePlan | updateNoSpace | updateBusy
  | updatePackageVerificationFailed | updateRecoveryRequired | updateRouterUnavailable
  | ramSwitchValidationFailed | ramSwitchFailed
  | invalidHandoff | handoffConflict
  | backupInvalid | backupBusy | backupNoSpace | backupRecoveryRequired | backupPairingConflict
  | engineUnknownProtocol | engineNotReleased | engineUnsupportedTarget
  | engineUnsupportedProfileGraph | engineStalePlan | engineStaleSession
  | engineRouterUnavailable | engineBusy | engineNoSpace | engineAuthenticationFailed
  | engineDownloadFailed | enginePackageVerificationFailed | engineCandidateCheckFailed
  | engineReconnectFailed | engineRecoveryRequired | engineInvalidRequest | engineInUse
deriving DecidableEq

namespace Text
variable {t u : Text} {c : Char}

def isSpace (c : Char) : Bool := c = ' ' || c = '\t' || c = '\r' || c = '\n'

/-- The POSIX class `[[:cntrl:]]`. -/
def isCntrl (c : Char) : Bool := c.toNat < 32 || c.toNat = 127

def isDigit (c : Char) : Bool := '0' ≤ c && c ≤ '9'

/-- `[a-f0-9]`. -/
def isHex (c : Char) : Bool := isDigit c || 'a' ≤ c && c ≤ 'f'

/-- `[a-fA-F0-9]`. -/
def isHexAny (c : Char) : Bool := isHex c || 'A' ≤ c && c ≤ 'F'

def isLower (c : Char) : Bool := 'a' ≤ c && c ≤ 'z'

def isUpper (c : Char) : Bool := 'A' ≤ c && c ≤ 'Z'

def isAlnum (c : Char) : Bool := isDigit c || isLower c || isUpper c

def lcChar (c : Char) : Char := if isUpper c then Char.ofNat (c.toNat + 32) else c

def lc (t : Text) : Text := t.map lcChar

def ucChar (c : Char) : Char := if isLower c then Char.ofNat (c.toNat - 32) else c

def uc (t : Text) : Text := t.map ucChar

def ltrim (t : Text) : Text := t.dropWhile isSpace

def trim (t : Text) : Text := (ltrim t).rdropWhile isSpace

def hasCntrl (t : Text) : Bool := t.any isCntrl

/-- `^[a-f0-9]{n}$`. -/
def hexOf (n : ℕ) : Regex Char := .rep n (.cls isHex)

/-- `^tag-[a-f0-9]{n}$`, the shape of every stored identifier. -/
def tagged (tag : Text) (n : ℕ) : Regex Char := .seq (.lit (tag ++ ['-'])) (hexOf n)

theorem trim_eq_self (h : ∀ c ∈ t, isSpace c = false) : trim t = t := by
  have hl : ltrim t = t := by
    cases t with
    | nil => rfl
    | cons c t => simp [ltrim, h c List.mem_cons_self]
  rw [trim, hl, List.rdropWhile_eq_self_iff]
  intro hne
  simp [h _ (List.getLast_mem hne)]

theorem trim_trim : trim (trim t) = trim t := by
  have hl : ltrim (trim t) = trim t := by
    unfold ltrim
    rw [List.dropWhile_eq_self_iff]
    intro hlen
    have hpre : trim t <+: ltrim t := List.rdropWhile_prefix isSpace _
    have hne : t.dropWhile isSpace ≠ [] := by
      intro h
      rw [ltrim, h] at hpre
      simp [List.prefix_nil.1 hpre] at hlen
    have hhead : (trim t)[0] = (t.dropWhile isSpace).head hne := by
      rw [List.head_eq_getElem]
      exact hpre.getElem hlen
    simp [hhead, List.head_dropWhile_not isSpace hne]
  rw [show trim (trim t) = (ltrim (trim t)).rdropWhile isSpace from rfl, hl, trim,
    List.rdropWhile_idempotent]

theorem trim_sublist : (trim t).Sublist t :=
  (List.rdropWhile_prefix isSpace _).sublist.trans (List.dropWhile_sublist isSpace)

theorem trim_length_le : (trim t).length ≤ t.length := trim_sublist.length_le

theorem lcChar_of_not_upper (h : isUpper c = false) : lcChar c = c := by simp [lcChar, h]

theorem lc_eq_self (h : ∀ c ∈ t, isUpper c = false) : lc t = t := by
  have hmap : t.map lcChar = t.map id :=
    List.map_congr_left fun c hc => lcChar_of_not_upper (h c hc)
  rw [lc, hmap, List.map_id]

theorem isUpper_iff : isUpper c = true ↔ 65 ≤ c.toNat ∧ c.toNat ≤ 90 := by
  simp only [isUpper, Bool.and_eq_true, decide_eq_true_eq, Char.le_def, UInt32.le_iff_toNat_le]
  exact Iff.rfl

theorem lcChar_not_upper : isUpper (lcChar c) = false := by
  by_cases h : isUpper c
  · have hr := isUpper_iff.1 h
    rw [lcChar, if_pos h]
    generalize c.toNat = n at hr
    obtain ⟨h1, h2⟩ := hr
    interval_cases n <;> decide
  · simp [lcChar, h]

theorem lc_lc : lc (lc t) = lc t := by
  apply lc_eq_self
  intro c hc
  obtain ⟨d, -, rfl⟩ := List.mem_map.1 hc
  exact lcChar_not_upper

end Text
end Foxhole
