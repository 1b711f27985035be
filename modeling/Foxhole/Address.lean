import Foxhole.Lib.Check
import Foxhole.Ucode
import Mathlib.Data.Nat.Bitwise
import Mathlib.Tactic.IntervalCases

/-! IP and MAC addresses as model.uc reads, masks, prints and compares them. -/
namespace Foxhole

/-- A decoded address: four or sixteen bytes. -/
@[ext] structure IpBytes where
  bytes : List ℕ
  length_eq : bytes.length = 4 ∨ bytes.length = 16
  lt : ∀ b ∈ bytes, b < 256
deriving DecidableEq

/-- The address functions of ucode, with what the sources rely on: a printed address parses
back, is not empty, and has no blank or slash in it. -/
structure Inet where
  iptoarr : Text → Option IpBytes
  arrtoip : IpBytes → Text
  iptoarr_nil : iptoarr [] = none
  iptoarr_arrtoip : ∀ b, iptoarr (arrtoip b) = some b
  arrtoip_plain : ∀ b, ∀ c ∈ arrtoip b, c ≠ '/' ∧ Text.isSpace c = false

namespace Inet
variable {inet : Inet} {a b : IpBytes}

theorem arrtoip_ne_nil (inet : Inet) (b : IpBytes) : inet.arrtoip b ≠ [] := by
  intro h
  have := inet.iptoarr_arrtoip b
  rw [h, inet.iptoarr_nil] at this
  cases this

end Inet

namespace IpBytes

def width (b : IpBytes) : ℕ := b.bytes.length * 8

def head (b : IpBytes) : ℕ := b.bytes.headD 0

end IpBytes

namespace Address
open Check Text

variable {inet : Inet} {v a : Text} {n left : ℕ} {b : IpBytes}

/-- `int(value, 10)` on a string of digits. -/
def decimalValue (t : Text) : ℕ := t.foldl (fun n c => 10 * n + (c.toNat - 48)) 0

def decimal (n : ℕ) : Text := Nat.toDigits 10 n

/-- `^[0-9]{1,3}$` -/
def shortNumber : Regex Char := .seq (.cls isDigit) (.upTo 2 (.cls isDigit))

/-- What `address_data` reads from a rule: the prefix fits the width, and is the whole width
when none was written. -/
structure Info where
  bytes : IpBytes
  prefixLen : ℕ
  explicit : Bool
  prefix_le : prefixLen ≤ bytes.width
  whole : explicit = false → prefixLen = bytes.width

def addressData (inet : Inet) (value : Text) : Option Info :=
  match (trim value).splitOn '/' with
  | [ip] => (inet.iptoarr ip).map fun b => ⟨b, b.width, false, le_rfl, fun _ => rfl⟩
  | [ip, len] => (inet.iptoarr ip).bind fun b =>
    if h : shortNumber.accepts len = true ∧ decimalValue len ≤ b.width then
      some ⟨b, decimalValue len, true, h.2, nofun⟩
    else none
  | _ => none

/-- The `left` high bits of a byte. -/
def maskByte (left b : ℕ) : ℕ :=
  if left = 0 then 0
  else if left < 8 then b &&& ((0xff <<< (8 - left)) &&& 0xff)
  else b

theorem maskByte_le : maskByte left n ≤ n := by
  unfold maskByte
  split
  · exact Nat.zero_le _
  · split
    · exact Nat.and_le_left
    · exact le_rfl

theorem maskByte_maskByte : maskByte left (maskByte left n) = maskByte left n := by
  by_cases h0 : left = 0
  · simp [maskByte, h0]
  · by_cases h8 : left < 8
    · simp only [maskByte, h0, h8, if_true, if_false, Nat.and_assoc, Nat.and_self]
    · simp [maskByte, h0, h8]

theorem maskByte_of_le (h : 8 ≤ left) : maskByte left n = n := by
  simp [maskByte, show left ≠ 0 by omega, show ¬ left < 8 by omega]

/-- Clear the bits of an address behind its prefix. -/
def maskBytes (prefixLen : ℕ) (b : IpBytes) : IpBytes where
  bytes := b.bytes.mapIdx fun i x => maskByte (prefixLen - i * 8) x
  length_eq := by simpa using b.length_eq
  lt := by
    intro x hx
    obtain ⟨i, hi, rfl⟩ := List.mem_mapIdx.1 hx
    exact maskByte_le.trans_lt (b.lt _ (List.getElem_mem hi))

@[simp] theorem maskBytes_width : (maskBytes n b).width = b.width := by
  simp [IpBytes.width, maskBytes]

theorem maskBytes_maskBytes : maskBytes n (maskBytes n b) = maskBytes n b := by
  ext1
  simp [maskBytes, List.mapIdx_mapIdx, Function.comp_def, maskByte_maskByte]

theorem maskBytes_width_self : maskBytes b.width b = b := by
  ext1
  apply List.ext_getElem (by simp [maskBytes])
  intro i hi _
  have hi' : i < b.bytes.length := by simpa [maskBytes] using hi
  simp only [maskBytes, List.getElem_mapIdx]
  exact maskByte_of_le (by unfold IpBytes.width; omega)

def canonicalAddress (inet : Inet) (info : Info) : Text :=
  let value := inet.arrtoip (maskBytes info.prefixLen info.bytes)
  if info.explicit then value ++ '/' :: decimal info.prefixLen else value

/-- The masked form of what was read: what `canonical_address` prints. -/
def Info.masked (info : Info) : Info where
  bytes := maskBytes info.prefixLen info.bytes
  prefixLen := info.prefixLen
  explicit := info.explicit
  prefix_le := by simpa using info.prefix_le
  whole := by simpa using info.whole

/-- Every prefix length that fits an address is printed as `shortNumber` reads it. -/
theorem decimal_short : ∀ n < 129, shortNumber.accepts (decimal n) = true ∧
    decimalValue (decimal n) = n ∧ ∀ c ∈ decimal n, (c == '/') = false ∧ isSpace c = false := by
  decide

theorem Info.prefixLen_lt (info : Info) : info.prefixLen < 129 := by
  have h := info.prefix_le
  have hl := info.bytes.length_eq
  simp only [IpBytes.width] at h
  omega

theorem canonicalAddress_plain (info : Info) :
    ∀ c ∈ canonicalAddress inet info, isSpace c = false := by
  intro c hc
  have hip := inet.arrtoip_plain (maskBytes info.prefixLen info.bytes)
  unfold canonicalAddress at hc
  split at hc
  · rcases List.mem_append.1 hc with hc | hc
    · exact (hip c hc).2
    · rcases List.mem_cons.1 hc with rfl | hc
      · decide
      · exact ((decimal_short _ info.prefixLen_lt).2.2 c hc).2
  · exact (hip c hc).2

theorem splitOn_slash (h : ∀ c ∈ v, c ≠ '/') : v.splitOn '/' = [v] := by
  rw [List.splitOn_eq_splitOnP]
  exact List.splitOnP_eq_singleton fun c hc => by simpa using h c hc

/-- A printed rule reads back as its masked form. -/
theorem addressData_canonicalAddress (info : Info) :
    addressData inet (canonicalAddress inet info) = some info.masked := by
  have hip := inet.arrtoip_plain (maskBytes info.prefixLen info.bytes)
  obtain ⟨hre, hval, hdec⟩ := decimal_short _ info.prefixLen_lt
  unfold addressData
  rw [trim_eq_self (canonicalAddress_plain info), canonicalAddress]
  by_cases he : info.explicit
  · have hsplit : (inet.arrtoip (maskBytes info.prefixLen info.bytes) ++
        '/' :: decimal info.prefixLen).splitOn '/' =
        [inet.arrtoip (maskBytes info.prefixLen info.bytes), decimal info.prefixLen] := by
      rw [List.splitOn_eq_splitOnP, List.splitOnP_append_cons_of_forall_mem
        (fun c hc => by simpa using (hip c hc).1) '/' (by simp),
        List.splitOnP_eq_singleton fun c hc => (hdec c hc).1]
    have hle : info.prefixLen ≤ (maskBytes info.prefixLen info.bytes).width := by
      simpa using info.prefix_le
    simp only [he, if_true, hsplit, inet.iptoarr_arrtoip, Option.bind_some, hre, hval, hle,
      true_and, dif_pos]
    simp [Info.masked, he]
  · have hw : info.prefixLen = info.bytes.width := info.whole (by simpa using he)
    simp only [he, Bool.false_eq_true, if_false, splitOn_slash fun c hc => (hip c hc).1,
      inet.iptoarr_arrtoip, Option.map_some]
    simp [Info.masked, he, hw]

theorem canonicalAddress_masked (info : Info) :
    canonicalAddress inet info.masked = canonicalAddress inet info := by
  simp [canonicalAddress, Info.masked, maskBytes_maskBytes]

/-- Whether a rule names a single address. -/
def Info.IsHost (info : Info) : Prop := info.prefixLen = info.bytes.width

instance (info : Info) : Decidable info.IsHost := inferInstanceAs (Decidable (_ = _))

theorem Info.masked_of_isHost {info : Info} (h : info.IsHost) : info.masked.bytes = info.bytes := by
  rw [Info.IsHost] at h
  simp [Info.masked, h, maskBytes_width_self]

@[simp] theorem Info.masked_isHost {info : Info} : info.masked.IsHost ↔ info.IsHost := by
  simp [Info.IsHost, Info.masked]

/-- The single addresses no rule may name. -/
def reserved (inet : Inet) (b : IpBytes) : Bool :=
  (b.width = 32 && (b.head = 0 || b.head = 127 || b.head ≥ 224)) ||
  (b.width = 128 && (b.head = 255 || inet.arrtoip b = "::".toList ||
    inet.arrtoip b = "::1".toList))

def normalizeAddress (inet : Inet) (value : Text) : Except Err Text :=
  match addressData inet value with
  | none => throw .invalidAddress
  | some info =>
    if info.IsHost ∧ reserved inet info.bytes then throw .invalidAddress
    else pure (canonicalAddress inet info)

def hostAddress (inet : Inet) (value : Text) : Option Text :=
  match addressData inet value with
  | none => none
  | some info => if info.IsHost then some (inet.arrtoip info.bytes) else none

theorem normalizeAddress_eq_ok : normalizeAddress inet v = .ok a ↔ ∃ info,
    addressData inet v = some info ∧ ¬ (info.IsHost ∧ reserved inet info.bytes) ∧
      canonicalAddress inet info = a := by
  unfold normalizeAddress
  cases addressData inet v with
  | none => simp
  | some info =>
    by_cases h : info.IsHost ∧ reserved inet info.bytes
    · simp [h]
    · simp only [h, if_false, pure_eq_ok, Option.some.injEq, exists_eq_left', not_false_eq_true,
        true_and]

/-- Normalising is idempotent. -/
theorem normalizeAddress_normalized (h : normalizeAddress inet v = .ok a) :
    normalizeAddress inet a = .ok a := by
  obtain ⟨info, hv, hres, rfl⟩ := normalizeAddress_eq_ok.1 h
  refine normalizeAddress_eq_ok.2
    ⟨info.masked, addressData_canonicalAddress info, ?_, canonicalAddress_masked info⟩
  rintro ⟨hh, hr⟩
  have hhost := Info.masked_isHost.1 hh
  rw [Info.masked_of_isHost hhost] at hr
  exact hres ⟨hhost, hr⟩

theorem normalizeAddress_ne_nil (h : normalizeAddress inet v = .ok a) : a ≠ [] := by
  obtain ⟨info, -, -, rfl⟩ := normalizeAddress_eq_ok.1 h
  have := inet.arrtoip_ne_nil (maskBytes info.prefixLen info.bytes)
  unfold canonicalAddress
  split <;> simp_all

theorem hostAddress_ne_nil (h : hostAddress inet v = some a) : a ≠ [] := by
  unfold hostAddress at h
  cases hv : addressData inet v with
  | none => simp [hv] at h
  | some info =>
    by_cases hh : info.IsHost
    · simp only [hv, hh, if_true, Option.some.injEq] at h
      exact h ▸ inet.arrtoip_ne_nil _
    · simp [hv, hh] at h

/-- `address_matches`: the first `bits` bits of two addresses agree. -/
def sameBits : ℕ → List ℕ → List ℕ → Bool
  | bits, x :: xs, y :: ys =>
    if bits = 0 then true
    else
      let take := min bits 8
      let mask := if take = 8 then 0xff else (0xff <<< (8 - take)) &&& 0xff
      (x &&& mask) == (y &&& mask) && sameBits (bits - take) xs ys
  | _, _, _ => true

def addressMatches (inet : Inet) (value rule : Text) : Bool :=
  match addressData inet value, addressData inet rule with
  | some flow, some target =>
    flow.bytes.width = target.bytes.width && target.prefixLen ≤ flow.prefixLen &&
      sameBits target.prefixLen flow.bytes.bytes target.bytes.bytes
  | _, _ => false

/-- `^[a-fA-F0-9]{2}(:[a-fA-F0-9]{2}){5}$` -/
def macShape : Regex Char :=
  .seq (.rep 2 (.cls isHexAny)) (.rep 5 (.seq (.lit [':']) (.rep 2 (.cls isHexAny))))

/-- The value of one hexadecimal digit. -/
def hexValue (c : Char) : ℕ :=
  if isDigit c then c.toNat - 48 else if isUpper c then c.toNat - 55 else c.toNat - 87

/-- `int(substr(value, 0, 2), 16)` -/
def firstByte (value : Text) : ℕ := 16 * hexValue (value.getD 0 '0') + hexValue (value.getD 1 '0')

def zeroMac : Text := "00:00:00:00:00:00".toList

def normalizeMac (value : Text) : Except Err Text := do
  require (macShape.accepts value = true) .invalidMac
  require (firstByte value &&& 1 = 0) .invalidMac
  require (value ≠ zeroMac) .invalidMac
  return lc value

theorem normalizeMac_eq_ok : normalizeMac v = .ok a ↔ macShape.accepts v = true ∧
    firstByte v &&& 1 = 0 ∧ v ≠ zeroMac ∧ lc v = a := by
  simp [normalizeMac]

theorem isHexAny_mem {c : Char} (h : isHexAny c = true) : c ∈ "0123456789abcdefABCDEF".toList := by
  have hc : Char.ofNat c.toNat = c := Char.ofNat_toNat c
  have hr : 48 ≤ c.toNat ∧ c.toNat ≤ 102 := by
    simp only [isHexAny, isHex, isDigit, Bool.or_eq_true, Bool.and_eq_true, decide_eq_true_eq,
      Char.le_def, UInt32.le_iff_toNat_le] at h
    change ((48 ≤ c.toNat ∧ c.toNat ≤ 57) ∨ (97 ≤ c.toNat ∧ c.toNat ≤ 102)) ∨
      (65 ≤ c.toNat ∧ c.toNat ≤ 70) at h
    omega
  rw [← hc] at h ⊢
  generalize c.toNat = n at h hr
  obtain ⟨h1, h2⟩ := hr
  interval_cases n <;> revert h <;> decide

/-- Lower-casing a letter of a MAC keeps its class and its value, and makes no zero or colon
out of another letter. -/
theorem lcChar_hexAny : ∀ c ∈ "0123456789abcdefABCDEF".toList, isHexAny (lcChar c) = true ∧
    hexValue (lcChar c) = hexValue c ∧ (lcChar c = '0' ∨ lcChar c = ':' → lcChar c = c) := by
  decide

theorem macShape_stable : macShape.Stable lcChar := by
  have hhex : (Regex.cls isHexAny).Stable lcChar :=
    fun c hc => (lcChar_hexAny c (isHexAny_mem hc)).1
  exact ⟨hhex.rep, Regex.Stable.rep
    ⟨⟨fun c hc => by simp_all [lcChar, isUpper], trivial⟩, hhex.rep⟩⟩

theorem macShape_within : macShape.Within fun c => isHexAny c = true ∨ c = ':' := by
  have hhex : (Regex.cls isHexAny).Within fun c => isHexAny c = true ∨ c = ':' :=
    fun c hc => Or.inl hc
  exact ⟨hhex.rep, Regex.Within.rep ⟨⟨fun c hc => Or.inr (by simpa using hc), trivial⟩, hhex.rep⟩⟩

theorem lcChar_mac {c : Char} (h : isHexAny c = true ∨ c = ':') :
    hexValue (lcChar c) = hexValue c ∧ (lcChar c = '0' ∨ lcChar c = ':' → lcChar c = c) := by
  rcases h with h | rfl
  · exact (lcChar_hexAny c (isHexAny_mem h)).2
  · decide

/-- A normalised MAC is stored as it is read. -/
theorem normalizeMac_normalized (h : normalizeMac v = .ok a) : normalizeMac a = .ok a := by
  obtain ⟨hm, hf, hz, rfl⟩ := normalizeMac_eq_ok.1 h
  have hin := macShape_within.forall_mem (Regex.accepts_iff.1 hm)
  refine normalizeMac_eq_ok.2 ⟨macShape_stable.accepts_map hm, ?_, ?_, lc_lc⟩
  · have hget : ∀ i, hexValue ((lc v).getD i '0') = hexValue (v.getD i '0') := by
      intro i
      by_cases hi : i < v.length
      · simp [lc, hi, (lcChar_mac (hin _ (List.getElem_mem hi))).1]
      · simp [lc, Nat.le_of_not_lt hi]
    rwa [firstByte, hget, hget]
  · intro hlc
    have hzero : ∀ d ∈ zeroMac, d = '0' ∨ d = ':' := by decide
    apply hz
    rw [← hlc]
    have hmap : v.map id = v.map lcChar := List.map_congr_left fun c hc =>
      ((lcChar_mac (hin c hc)).2 (hzero _ (hlc ▸ List.mem_map_of_mem hc))).symm
    simpa [lc] using hmap

/-! A concrete pair of address functions: IPv4 in dotted decimal, and sixteen bytes written with
colons between them. -/

def printBytes (sep : Char) (bytes : List ℕ) : Text := [sep].intercalate (bytes.map decimal)

def readByte (t : Text) : Option ℕ :=
  if shortNumber.accepts t && decimalValue t < 256 then some (decimalValue t) else none

def readBytes (sep : Char) (t : Text) : Option (List ℕ) := (t.splitOn sep).mapM readByte

theorem readByte_decimal : ∀ n < 256, readByte (decimal n) = some n ∧
    ∀ c ∈ decimal n, isDigit c = true := by
  decide +kernel

theorem mapM_readByte_decimal {bytes : List ℕ} (h : ∀ b ∈ bytes, b < 256) :
    (bytes.map decimal).mapM readByte = some bytes := by
  induction bytes with
  | nil => rfl
  | cons b bytes ih =>
    simp [List.mapM_cons, (readByte_decimal b (h b List.mem_cons_self)).1,
      ih fun c hc => h c (List.mem_cons_of_mem _ hc)]

theorem readBytes_printBytes {sep : Char} {bytes : List ℕ} (hne : bytes ≠ [])
    (hs : isDigit sep = false) (h : ∀ b ∈ bytes, b < 256) :
    readBytes sep (printBytes sep bytes) = some bytes := by
  rw [readBytes, printBytes, List.splitOn_intercalate sep _ (by simpa using hne),
    mapM_readByte_decimal h]
  intro l hl hmem
  obtain ⟨b, hb, rfl⟩ := List.mem_map.1 hl
  have := (readByte_decimal b (h b hb)).2 sep hmem
  simp [hs] at this

theorem mem_printBytes {sep c : Char} {bytes : List ℕ} (h : ∀ b ∈ bytes, b < 256)
    (hc : c ∈ printBytes sep bytes) : c = sep ∨ isDigit c = true := by
  unfold printBytes at hc
  induction bytes with
  | nil => simp at hc
  | cons b bytes ih =>
    have hb := (readByte_decimal b (h b List.mem_cons_self)).2
    have ih := ih fun x hx => h x (List.mem_cons_of_mem _ hx)
    rcases bytes with _ | ⟨b', bytes⟩
    · exact Or.inr (hb c (by simpa using hc))
    · simp only [List.map_cons, List.intercalate_cons_cons, List.append_assoc,
        List.mem_append, List.mem_singleton] at hc ih
      rcases hc with hc | rfl | hc
      · exact Or.inr (hb c hc)
      · exact Or.inl rfl
      · exact ih hc

/-- A list of `n` bytes as an address. -/
def ofBytes (n : ℕ) (bytes : List ℕ) : Option IpBytes :=
  if h : bytes.length = n ∧ (n = 4 ∨ n = 16) ∧ ∀ b ∈ bytes, b < 256 then
    some ⟨bytes, h.1 ▸ h.2.1, h.2.2⟩
  else none

theorem ofBytes_bytes (b : IpBytes) (h : b.bytes.length = n) : ofBytes n b.bytes = some b := by
  have hok : b.bytes.length = n ∧ (n = 4 ∨ n = 16) ∧ ∀ x ∈ b.bytes, x < 256 :=
    ⟨h, h ▸ b.length_eq, b.lt⟩
  rw [ofBytes, dif_pos hok]

theorem colon_mem_printBytes {bytes : List ℕ} (h : 2 ≤ bytes.length) :
    ':' ∈ printBytes ':' bytes := by
  match bytes, h with
  | b :: b' :: bytes, _ => simp [printBytes, List.intercalate_cons_cons]

end Address

/-- The separator of an address of this length. -/
def IpBytes.sep (b : IpBytes) : Char := if b.bytes.length = 4 then '.' else ':'

theorem IpBytes.ne_nil (b : IpBytes) : b.bytes ≠ [] := by
  intro h
  have := b.length_eq
  simp [h] at this

/-- The address functions on canonical IPv4, and on sixteen bytes. -/
def decimalInet : Inet where
  iptoarr t :=
    if ':' ∈ t then (Address.readBytes ':' t).bind (Address.ofBytes 16)
    else (Address.readBytes '.' t).bind (Address.ofBytes 4)
  arrtoip b := Address.printBytes b.sep b.bytes
  iptoarr_nil := by decide
  iptoarr_arrtoip b := by
    rcases b.length_eq with h | h
    · have hsep : b.sep = '.' := by simp [IpBytes.sep, h]
      have hcolon : ':' ∉ Address.printBytes '.' b.bytes := by
        intro hc
        rcases Address.mem_printBytes b.lt hc with hc | hc <;> revert hc <;> decide
      rw [hsep, if_neg hcolon, Address.readBytes_printBytes b.ne_nil (by decide) b.lt]
      exact Address.ofBytes_bytes b h
    · have hsep : b.sep = ':' := by simp [IpBytes.sep, h]
      rw [hsep, if_pos (Address.colon_mem_printBytes (by omega)),
        Address.readBytes_printBytes b.ne_nil (by decide) b.lt]
      exact Address.ofBytes_bytes b h
  arrtoip_plain b c hc := by
    have hdigit : Text.isDigit c = true → c ≠ '/' ∧ Text.isSpace c = false := by
      intro hd
      refine ⟨by rintro rfl; revert hd; decide, ?_⟩
      by_contra hs
      simp only [Text.isSpace, Bool.not_eq_false, Bool.or_eq_true, decide_eq_true_eq] at hs
      rcases hs with ((rfl | rfl) | rfl) | rfl <;> revert hd <;> decide
    rcases Address.mem_printBytes b.lt hc with rfl | hd
    · unfold IpBytes.sep
      split <;> decide
    · exact hdigit hd

end Foxhole
