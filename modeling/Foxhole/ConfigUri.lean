import Foxhole.ClientExport

/-! The hysteria URI: `decode`, `from_uri` and the text forms of `parse_config` in model.uc. -/
namespace Foxhole
open Check Text Address

namespace Config

/-- `decode(value)`: a percent sign stands before two hexadecimal digits. -/
def decode : Text → Except Err Text
  | [] => .ok []
  | c :: rest =>
    if c = '%' then
      match rest with
      | a :: b :: rest =>
        if isHexAny a && isHexAny b then
          (Char.ofNat (16 * hexValue a + hexValue b) :: ·) <$> decode rest
        else .error .invalidConfig
      | _ => .error .invalidConfig
    else (c :: ·) <$> decode rest

/-- One entry of the query: `split(entry, '=', 2)`, where an empty entry is passed over. -/
def readParam (params : List (Text × Text)) (entry : Text) : Except Err (List (Text × Text)) :=
  if entry = [] then pure params
  else do
    let key ← decode (entry.takeWhile (· ≠ '='))
    require (key ∉ params.map Prod.fst) .invalidConfig
    let value ← decode ((entry.dropWhile (· ≠ '=')).drop 1)
    pure (params ++ [(key, value)])

def paramNames : List Text :=
  ["sni", "insecure", "pinSHA256", "obfs", "obfs-password"].map String.toList

/-- A parameter that is there and not empty. -/
def given (params : List (Text × Text)) (name : String) : Option Text :=
  (params.lookup name.toList).filter (· ≠ [])

/-- `config.tls` of the parameters. -/
def uriTls (params : List (Text × Text)) : Except Err (Field Tls) :=
  let insecure := given params "insecure"
  if given params "sni" = none ∧ insecure = none ∧ given params "pinSHA256" = none then
    pure .missing
  else do
    require (∀ value ∈ insecure,
      value ∈ ["0".toList, "1".toList, "false".toList, "true".toList]) .invalidConfig
    pure (.value {
      sni := .ofOption (given params "sni")
      insecure := .ofOption (insecure.map fun value =>
        decide (value = "1".toList ∨ value = "true".toList))
      pinSHA256 := .ofOption (given params "pinSHA256") })

/-- `config.obfs` of the parameters. -/
def uriObfs (params : List (Text × Text)) : Except Err (Field Obfs) :=
  match given params "obfs" with
  | some kind =>
    pure (.value
      { kind := .value kind, password := .ofOption (params.lookup "obfs-password".toList) })
  | none => do
    require (given params "obfs-password" = none) .invalidConfig
    pure .missing

/-- `replace(authority, /\/$/, '')` -/
def dropSlash (authority : Text) : Text :=
  if authority.getLast? = some '/' then authority.dropLast else authority

/-- `hash[1] ? decode(hash[1]) : null` -/
def readName (part : Text) : Except Err (Option Text) :=
  if part = [] then pure none else some <$> decode part

/-- `from_uri` behind the scheme: the configuration and the name. -/
def fromUri (inet : Inet) (body : Text) : Except Err (Config × Option Text) := do
  let hash := body.splitOn '#'
  require (hash.length ≤ 2) .invalidConfig
  let name ← readName (hash.getD 1 [])
  let query := (hash.getD 0 []).splitOn '?'
  require (query.length ≤ 2) .invalidConfig
  let credentials := (dropSlash (query.getD 0 [])).splitOn '@'
  require (credentials.length = 2) .invalidConfig
  let server ← endpoint inet (.value (credentials.getD 1 []))
  let auth ← decode (credentials.getD 0 [])
  let params ← ((query.getD 1 []).splitOn '&').foldlM readParam []
  require (∀ param ∈ params, param.1 ∈ paramNames) .unsupportedConfig
  let tls ← uriTls params
  let obfs ← uriObfs params
  return ({ server := .value server, auth := .value auth, tls, obfs }, name)

/-- What stands behind `^(hysteria2|hy2):\/\/`. -/
def uriBody (input : Text) : Option Text :=
  if "hysteria2://".toList <+: input then some (input.drop 12)
  else if "hy2://".toList <+: input then some (input.drop 6)
  else none

/-- What `parse_config` returns; `endpoint` is the server of the configuration. -/
structure Read where
  config : Config
  name : Text
deriving DecidableEq

def Read.endpoint (value : Read) : Text := value.config.server.value?.getD []

/-- The configuration that a text spells, and its name. -/
def decodeInput (inet : Inet) (other : Text → Except Err Config) (input : Text) :
    Except Err (Config × Option Text) :=
  match uriBody input with
  | some body => fromUri inet body
  | none => (fun config => (config, none)) <$> other input

/-- `parse_config` on trimmed text, where `other` decodes the text that is no URI, as JSON or as
YAML. -/
def parseInput (inet : Inet) (other : Text → Except Err Config) (input : Text) :
    Except Err Read := do
  let (config, name) ← decodeInput inet other input
  let config ← check inet config
  match name with
  | some name => do
    require (Core.boundedText 64 name) .invalidName
    return ⟨config, name⟩
  | none => return ⟨config, config.server.value?.getD []⟩

/-- `parse_config(raw)` -/
def parse (inet : Inet) (other : Text → Except Err Config) (raw : Text) : Except Err Read := do
  require (raw.length ≤ 16384 ∧ trim raw ≠ []) .invalidConfig
  parseInput inet other (trim raw)

variable {inet : Inet} {t u : Text} {c : Char}

/-! Percent encoding. -/

/-- A ucode string holds bytes. -/
def Bytes (t : Text) : Prop := ∀ c ∈ t, c.toNat < 256

instance : Decidable (Bytes t) := by
  unfold Bytes
  infer_instance

/-- The letters of what `encode` prints. -/
def uriChar (c : Char) : Bool := isAlnum c || c ∈ ['_', '.', '~', '-', '%']

theorem alnum_hex (h : isHexAny c = true) : isAlnum c = true := by
  simp only [isHexAny, isHex, Bool.or_eq_true, Bool.and_eq_true, decide_eq_true_eq] at h
  simp only [isAlnum, isLower, isUpper, Bool.or_eq_true, Bool.and_eq_true, decide_eq_true_eq]
  rcases h with (h | ⟨h, h'⟩) | ⟨h, h'⟩
  · exact Or.inl (Or.inl h)
  · exact Or.inl (Or.inr ⟨h, Char.le_trans h' (by decide)⟩)
  · exact Or.inr ⟨h, Char.le_trans h' (by decide)⟩

theorem Bytes.cons (h : Bytes (c :: t)) : c.toNat < 256 ∧ Bytes t :=
  ⟨h c List.mem_cons_self, fun x hx => h x (List.mem_cons_of_mem _ hx)⟩

/-- Addresses of sixteen bytes are printed in hexadecimal groups, the last two perhaps in
decimal. -/
def PlainGroups (inet : Inet) : Prop :=
  ∀ b, b.bytes.length = 16 → ∀ c ∈ inet.arrtoip b, (isHexAny c || c = ':' || c = '.') = true

/-- The hosts that `endpoint` prints. -/
inductive Host (inet : Inet) : Text → Prop
  | name {host : Text} (h : dns host = true) : Host inet (lc host)
  | bytes {b : IpBytes} (h : b.bytes.length = 16) : Host inet ('[' :: inet.arrtoip b ++ [']'])

structure Ports (ports : Text) : Prop where
  count : (ports.splitOn ',').length ≤ 32
  ranges : ∀ range ∈ ports.splitOn ',', portRange range = true

variable {host ports : Text}

/-- The letters of an endpoint. -/
def serverChar (c : Char) : Bool := isAlnum c || c ∈ ['.', '-', ':', '[', ']', ',']

theorem mem_splitOn (sep : Char) (h : c ∈ t) : c = sep ∨ ∃ piece ∈ t.splitOn sep, c ∈ piece := by
  have hjoin : [sep].intercalate (t.splitOn sep) = t := List.intercalate_splitOn sep
  rw [← hjoin] at h
  clear hjoin
  generalize t.splitOn sep = pieces at *
  induction pieces with
  | nil => simp at h
  | cons piece pieces ih =>
    cases pieces with
    | nil => exact Or.inr ⟨piece, List.mem_cons_self, by simpa using h⟩
    | cons next rest =>
      rw [List.intercalate_cons_cons] at h
      rcases List.mem_append.1 h with h | h
      · rcases List.mem_append.1 h with h | h
        · exact Or.inr ⟨piece, List.mem_cons_self, h⟩
        · exact Or.inl (List.mem_singleton.1 h)
      · rcases ih h with h | ⟨found, hf, h⟩
        · exact Or.inl h
        · exact Or.inr ⟨found, List.mem_cons_of_mem _ hf, h⟩

theorem isAlnum_of_letter {c : Char} (h : (isAlnum c || isUpper c) = true) : isAlnum c = true := by
  rcases Bool.or_eq_true _ _ ▸ h with h | h
  · exact h
  · simp [isAlnum, h]

theorem isAlnum_of_inner {c : Char} (h : (isAlnum c || isUpper c || c = '-') = true) :
    isAlnum c = true ∨ c = '-' := by
  rcases Bool.or_eq_true _ _ ▸ h with h | h
  · exact Or.inl (isAlnum_of_letter h)
  · exact Or.inr (of_decide_eq_true h)

theorem dnsLabel_chars {label : Text} (h : dnsLabel.accepts label = true) :
    ∀ c ∈ label, isAlnum c = true ∨ c = '-' := by
  refine Regex.Within.forall_mem (r := dnsLabel) ?_ (Regex.accepts_iff.1 h)
  exact ⟨fun c hc => Or.inl (isAlnum_of_letter hc), trivial, fun c hc => isAlnum_of_inner hc,
    fun c hc => Or.inl (isAlnum_of_letter hc)⟩

theorem dns_labels (h : dns host = true) : host.length ≤ 253 ∧ host ≠ [] ∧
    ∀ label ∈ host.splitOn '.', (1 ≤ label.length ∧ label.length ≤ 63) ∧
      dnsLabel.accepts label = true := by
  simpa [dns, and_assoc] using h

theorem dns_chars (h : dns host = true) : ∀ c ∈ host, isAlnum c = true ∨ c = '-' ∨ c = '.' := by
  intro c hc
  rcases mem_splitOn '.' hc with rfl | ⟨label, hl, hc⟩
  · exact Or.inr (Or.inr rfl)
  · rcases dnsLabel_chars ((dns_labels h).2.2 label hl).2 c hc with h | h
    · exact Or.inl h
    · exact Or.inr (Or.inl h)

theorem lcChar_upper (h : isUpper c = true) : isAlnum (lcChar c) = true ∧ lcChar c ≠ '.' := by
  have hr := isUpper_iff.1 h
  rw [lcChar, if_pos h]
  generalize c.toNat = n at hr
  obtain ⟨h1, h2⟩ := hr
  interval_cases n <;> decide

/-- A letter of a name stays one of the same kind in lower case. -/
theorem lcChar_name (h : isAlnum c = true ∨ c = '-') :
    (isAlnum (lcChar c) = true ∨ lcChar c = '-') ∧ lcChar c ≠ '.' ∧
      (isAlnum c = true → isAlnum (lcChar c) = true) := by
  by_cases hu : isUpper c = true
  · have hl := lcChar_upper hu
    exact ⟨Or.inl hl.1, hl.2, fun _ => hl.1⟩
  · rw [lcChar_of_not_upper (Bool.not_eq_true _ ▸ hu)]
    refine ⟨h, ?_, id⟩
    rintro rfl
    revert h
    decide

theorem portRange_chars {range : Text} (h : portRange range = true) :
    range ≠ [] ∧ ∀ c ∈ range, isDigit c = true ∨ c = '-' := by
  refine ⟨by rintro rfl; revert h; decide, fun c hc => ?_⟩
  rcases mem_splitOn '-' hc with rfl | ⟨piece, hp, hc⟩
  · exact Or.inr rfl
  · refine Or.inl ?_
    unfold portRange at h
    split at h
    · rename_i port hs
      rw [hs, List.mem_singleton] at hp
      subst hp
      simp only [Bool.and_eq_true, List.all_eq_true] at h
      exact h.1.1.2 c hc
    · rename_i start stop hs
      simp only [Bool.and_eq_true, List.all_eq_true] at h
      rw [hs, List.mem_cons, List.mem_singleton] at hp
      rcases hp with rfl | rfl
      · exact h.1.1.1.1.1.2 c hc
      · exact h.1.1.1.2 c hc
    · cases h

theorem Ports.chars (h : Ports ports) :
    ports ≠ [] ∧ ∀ c ∈ ports, (isDigit c || c = ',' || c = '-') = true := by
  refine ⟨?_, fun c hc => ?_⟩
  · rintro rfl
    exact (portRange_chars (h.ranges [] (by simp))).1 rfl
  · rcases mem_splitOn ',' hc with rfl | ⟨range, hr, hc⟩
    · rfl
    · rcases (portRange_chars (h.ranges range hr)).2 c hc with h | h <;> simp [h]

theorem Host.chars (hinet : PlainGroups inet) (h : Host inet host) :
    host ≠ [] ∧ ∀ c ∈ host, serverChar c = true := by
  cases h with
  | name h =>
    refine ⟨by simpa [lc] using (dns_labels h).2.1, fun c hc => ?_⟩
    obtain ⟨d, hd, rfl⟩ := List.mem_map.1 hc
    have hname : (isAlnum d = true ∨ d = '-') ∨ d = '.' := by
      have := dns_chars h d hd
      tauto
    rcases hname with hname | rfl
    · rcases (lcChar_name hname).1 with h | h <;> simp [serverChar, h]
    · decide
  | bytes h =>
    refine ⟨by simp, fun c hc => ?_⟩
    simp only [List.cons_append, List.mem_cons, List.mem_append, List.not_mem_nil, or_false] at hc
    rcases hc with rfl | hc | rfl
    · decide
    · have hg := hinet _ h c hc
      simp only [Bool.or_eq_true, decide_eq_true_eq] at hg
      rcases hg with (hg | rfl) | rfl
      · simp [serverChar, alnum_hex hg]
      · decide
      · decide
    · decide

structure Tls.Checked (tls : Tls) : Prop where
  unknown : tls.unknown = false
  sni : tls.sni = .missing ∨ ∃ name, tls.sni = .value name ∧ dns name = true
  insecure : tls.insecure ≠ .invalid
  pinSHA256 : tls.pinSHA256 = .missing ∨ ∃ pin, tls.pinSHA256 = .value pin ∧ pin.length = 64 ∧
    (∀ c ∈ pin, isHexAny c = true) ∧ lc pin = pin

structure Obfs.Checked (obfs : Obfs) : Prop where
  kind : obfs.kind = .value "salamander".toList ∨ obfs.kind = .value "gecko".toList
  unknown : obfs.unknown = false
  methodUnknown : obfs.methodUnknown = false
  password : ∃ word, obfs.password = .value word ∧ Core.boundedText 1024 word

/-- A member that is null, or an object that was checked. -/
def Member {α : Type} (member : Field α) (checked : α → Prop) : Prop :=
  member = .missing ∨ ∃ value, member = .value value ∧ checked value

/-- An accepted configuration, as far as the URI carries it. -/
structure Checked (inet : Inet) (config : Config) : Prop where
  server : ∃ host ports, Host inet host ∧ Ports ports ∧
    config.server = .value (host ++ ':' :: ports)
  auth : ∃ auth, config.auth = .value auth ∧ Core.boundedText 1024 auth
  tls : Member config.tls Tls.Checked
  obfs : Member config.obfs Obfs.Checked

/-- The word of a parameter. -/
def Word (word : Text) (param : Text × Text) : Prop :=
  ∃ printed, word = param.1 ++ '=' :: printed ∧ (∀ c ∈ param.1, uriChar c = true ∧ c ≠ '%') ∧
    (∀ c ∈ printed, uriChar c = true) ∧ decode printed = .ok param.2

theorem Word.chars {word : Text} {param : Text × Text} (h : Word word param) :
    ∀ c ∈ word, uriChar c = true ∨ c = '=' := by
  obtain ⟨printed, rfl, hname, hprinted, -⟩ := h
  intro c hc
  rcases List.mem_append.1 hc with hc | hc
  · exact Or.inl (hname c hc).1
  · rcases List.mem_cons.1 hc with rfl | hc
    · exact Or.inr rfl
    · exact Or.inl (hprinted c hc)

/-- A text member as a parameter. -/
def param (name : String) (value : Field Text) : List (Text × Text) :=
  match value with
  | .value value => if value = [] then [] else [(name.toList, value)]
  | _ => []

variable {words : List Text} {base name : Text}

/-- What the words of the query take, with a separator each. -/
def total (words : List Text) : ℕ := (words.map fun word => word.length + 1).sum

def homeUri : Text := "hy2://se%23cret@Example.com/?obfs=gecko&obfs-password=a%26b".toList

end Config
end Foxhole
