import Foxhole.Address
import Foxhole.Lib.Check
import Mathlib.Data.List.Dedup

/-! The firewall set of the addresses that phones are served on: mobile-network.uc. -/
namespace Foxhole.MobileNetwork
open Check Text Address

/-- The code the source dies with, and the exception of the interpreter itself. -/
inductive Failure where
  | lanUnavailable | notAnObject
deriving DecidableEq

structure Route where
  target : Field Text
  mask : Field ℤ
deriving DecidableEq

/-- The status of an interface. `up` is what comes of `up == true`, and an item of a list that is
no object is `none`. -/
structure Status where
  interface : Field Text
  up : Bool
  l3Device : Field Text
  route : Field (List (Option Route))
  ipv4Address : Field (List (Option (Field Text)))
deriving DecidableEq

structure Binding where
  address : Text
  device : Text
deriving DecidableEq

variable {inet : Inet} {b : IpBytes} {t a : Text}

def isDeviceChar (c : Char) : Bool := isAlnum c || c = '_' || c = '.' || c = ':' || c = '-'

/-- `^[A-Za-z0-9_.:-]{1,32}$` -/
def isDevice (value : Text) : Bool :=
  1 ≤ value.length && value.length ≤ 32 && value.all isDeviceChar

def wanNames : List Text := ["wan", "wan6", "loopback", "pppoe"].map String.toList

/-- `upstream`, with the routes that are left. -/
def upstreamRoutes : List (Option Route) → Except Failure Bool
  | [] => .ok false
  | none :: _ => .error .notAnObject
  | some row :: rest =>
    if row.mask = .value 0 ∧
      (row.target = .value "0.0.0.0".toList ∨ row.target = .value "::".toList)
    then .ok true
    else upstreamRoutes rest

def upstream (status : Status) : Except Failure Bool :=
  if status.interface.value?.any (· ∈ wanNames) = true then .ok true
  else
    match status.route with
    | .missing => .ok false
    | .invalid => .error .lanUnavailable
    | .value routes => do
      require (routes.length ≤ 128) .lanUnavailable
      upstreamRoutes routes

/-- An address of a private network. -/
def isPrivate (b : IpBytes) : Bool :=
  match b.bytes with
  | [w, x, _, _] => w = 10 || (w = 172 && 16 ≤ x && x ≤ 31) || (w = 192 && x = 168)
  | _ => false

def privateAddress (inet : Inet) (value : Text) : Option Text := do
  let b ← inet.iptoarr value
  if isPrivate b = true then some (inet.arrtoip b) else none

/-- The devices of the interface `lan`, each once. -/
def lanDevices (statuses : List (Option Status)) : List Text :=
  statuses.foldl (fun selected status =>
    match status with
    | some ⟨.value interface, true, .value device, _, _⟩ =>
      if interface = "lan".toList ∧ isDevice device = true ∧ device ∉ selected then
        selected ++ [device]
      else selected
    | _ => selected) []

/-- The devices of the configuration. -/
def configuredDevices (configured : List (Field Text)) : Except Failure (List Text) :=
  configured.foldlM (fun selected item =>
    match item with
    | .value device => do
      require (isDevice device = true ∧ device ∉ selected) .lanUnavailable
      return selected ++ [device]
    | _ => .error .lanUnavailable) []

def selectedDevices (statuses : List (Option Status)) (configured : Field (List (Field Text))) :
    Except Failure (List Text) :=
  match configured with
  | .missing => .ok (lanDevices statuses)
  | .invalid => .error .lanUnavailable
  | .value configured => do
    require (configured ≠ [] ∧ configured.length ≤ 8) .lanUnavailable
    configuredDevices configured

/-- The variables of the main loop. -/
structure Bound where
  result : List Binding
  seen : List Text
deriving DecidableEq

def bindAddress (inet : Inet) (device : Text) (bound : Bound) (item : Option (Field Text)) :
    Except Failure Bound :=
  match (item.bind Field.value?).bind (privateAddress inet) with
  | none => .ok bound
  | some address =>
    let key := device ++ ' ' :: address
    if key ∈ bound.seen then .ok bound
    else do
      require (bound.result.length < 16) .lanUnavailable
      return ⟨bound.result ++ [⟨address, device⟩], bound.seen ++ [key]⟩

def bindStatus (inet : Inet) (selected : List Text) (bound : Bound) (status : Option Status) :
    Except Failure Bound :=
  match status with
  | none => .ok bound
  | some status =>
    match status.up, status.l3Device with
    | true, .value device =>
      if device ∈ selected then do
        require ((← upstream status) = false) .lanUnavailable
        match status.ipv4Address with
        | .missing => return bound
        | .invalid => throw .lanUnavailable
        | .value addresses => do
          require (addresses.length ≤ 16) .lanUnavailable
          addresses.foldlM (bindAddress inet device) bound
      else .ok bound
    | _, _ => .ok bound

def listeners (inet : Inet) (statuses : Field (List (Option Status)))
    (configured : Field (List (Field Text))) : Except Failure (List Binding) :=
  match statuses with
  | .value statuses => do
    require (statuses.length ≤ 64) .lanUnavailable
    let selected ← selectedDevices statuses configured
    require (selected ≠ [] ∧ selected.length ≤ 8) .lanUnavailable
    let bound ← statuses.foldlM (bindStatus inet selected) ⟨[], []⟩
    require (bound.result ≠ []) .lanUnavailable
    return bound.result
  | _ => .error .lanUnavailable

/-! The text of the set. -/

def Binding.Fine (inet : Inet) (row : Binding) : Prop :=
  isDevice row.device = true ∧ privateAddress inet row.address = some row.address

instance (inet : Inet) (row : Binding) : Decidable (row.Fine inet) :=
  inferInstanceAs (Decidable (_ ∧ _))

/-- `'"' + device + '" . ' + address` -/
def Binding.print (row : Binding) : Text :=
  '"' :: row.device ++ "\" . ".toList ++ row.address

def firewallElements (inet : Inet) (bindings : List Binding) : Except Failure Text := do
  require (∀ row ∈ bindings, row.Fine inet) .lanUnavailable
  return ", ".toList.intercalate (bindings.map Binding.print)

def setHead : Text := "set foxhole_mobile_endpoints \x7b type ifname . ipv4_addr;".toList

def firewallSet (inet : Inet) (bindings : List Binding) : Except Failure Text := do
  let elements ← firewallElements inet bindings
  let inner :=
    if elements ≠ [] then " elements = \x7b ".toList ++ elements ++ " \x7d;".toList else []
  return setHead ++ inner ++ " \x7d\n".toList

/-- `split(text, ', ')` -/
def splitComma : Text → List Text
  | [] => [[]]
  | ',' :: ' ' :: rest => [] :: splitComma rest
  | c :: rest =>
    match splitComma rest with
    | [] => [[c]]
    | part :: parts => (c :: part) :: parts

/-- `^"([A-Za-z0-9_.:-]{1,32})" \. ([0-9.]{7,15})$` -/
def readElement (part : Text) : Option Binding :=
  match part with
  | '"' :: rest => do
    let address ← (rest.dropWhile isDeviceChar).dropPrefix? "\" . ".toList
    let device := rest.takeWhile isDeviceChar
    if isDevice device = true ∧ 7 ≤ address.length ∧ address.length ≤ 15 ∧
        ∀ c ∈ address, (isDigit c || c = '.') = true then some ⟨address, device⟩
    else none
  | _ => none

/-- The variables of the loop of `parse_firewall_set`. -/
structure Parsed where
  result : List Binding
  seen : List Text
  devices : List Text
deriving DecidableEq

def parsePart (inet : Inet) (parsed : Parsed) (part : Text) : Except Failure Parsed :=
  match readElement part with
  | none => .error .lanUnavailable
  | some found => do
    require (privateAddress inet found.address = some found.address ∧ part ∉ parsed.seen)
      .lanUnavailable
    let devices := if found.device ∈ parsed.devices then parsed.devices
      else parsed.devices ++ [found.device]
    require (devices.length ≤ 8) .lanUnavailable
    return ⟨parsed.result ++ [found], parsed.seen ++ [part], devices⟩

def elementsHead : Text := setHead ++ " elements = \x7b ".toList

def elementsTail : Text := " \x7d; \x7d\n".toList

def parseFirewallSet (inet : Inet) (raw : Text) : Except Failure (List Binding) := do
  require (raw ≠ [] ∧ raw.length ≤ 4096) .lanUnavailable
  if firewallSet inet [] = .ok raw then return []
  else
    -- a text too short for both ends has no element between them, and fails below in the source
    match (raw.dropPrefix? elementsHead).bind (·.dropSuffix? elementsTail) with
    | none => throw .lanUnavailable
    | some elements => do
      let parts := splitComma elements
      require (parts ≠ [] ∧ parts.length ≤ 16) .lanUnavailable
      let parsed ← parts.foldlM (parsePart inet) ⟨[], [], []⟩
      require (firewallSet inet parsed.result = .ok raw) .lanUnavailable
      return parsed.result

variable {row : Binding} {rows bindings : List Binding} {raw part : Text} {parts : List Text}

/-! What a printed element is, and that it is read back. -/

theorem splitComma_ne_nil : splitComma t ≠ [] := by
  induction t with
  | nil => simp [splitComma]
  | cons c t ih =>
    unfold splitComma
    split
    · simp_all
    · simp
    · split <;> simp

theorem splitComma_cons {c : Char} (h : c ≠ ',') :
    ∃ part parts, splitComma t = part :: parts ∧ splitComma (c :: t) = (c :: part) :: parts := by
  cases hs : splitComma t with
  | nil => exact absurd hs splitComma_ne_nil
  | cons part parts =>
    refine ⟨part, parts, rfl, ?_⟩
    rw [splitComma, hs]
    intro _ hc
    exact absurd hc h

theorem splitComma_plain (h : ',' ∉ part) : splitComma part = [part] := by
  induction part with
  | nil => rfl
  | cons c part ih =>
    obtain ⟨first, rest, hs, hcons⟩ := splitComma_cons (t := part) (c := c) (by
      rintro rfl
      exact h List.mem_cons_self)
    rw [ih fun hc => h (List.mem_cons_of_mem _ hc)] at hs
    cases hs
    exact hcons

theorem splitComma_append (h : ',' ∉ part) :
    splitComma (part ++ ',' :: ' ' :: t) = part :: splitComma t := by
  induction part with
  | nil => rfl
  | cons c part ih =>
    obtain ⟨first, rest, hs, hcons⟩ := splitComma_cons (t := part ++ ',' :: ' ' :: t) (c := c) (by
      rintro rfl
      exact h List.mem_cons_self)
    rw [ih fun hc => h (List.mem_cons_of_mem _ hc)] at hs
    cases hs
    exact hcons

theorem comma_eq : ", ".toList = [',', ' '] := rfl

theorem splitComma_join (hne : parts ≠ []) (h : ∀ part ∈ parts, ',' ∉ part) :
    splitComma (", ".toList.intercalate parts) = parts := by
  induction parts with
  | nil => exact absurd rfl hne
  | cons part parts ih =>
    have hpart := h part List.mem_cons_self
    cases parts with
    | nil => simpa using splitComma_plain hpart
    | cons next parts =>
      rw [comma_eq] at ih ⊢
      have hjoin : [',', ' '].intercalate (part :: next :: parts) =
          part ++ ',' :: ' ' :: [',', ' '].intercalate (next :: parts) := by
        simp [List.intercalate_cons_cons]
      rw [hjoin, splitComma_append hpart,
        ih (by simp) fun p hp => h p (List.mem_cons_of_mem _ hp)]

/-- `arrtoip` prints IPv4 addresses in dotted decimal. -/
def Dotted (inet : Inet) : Prop :=
  ∀ b : IpBytes, b.bytes.length = 4 → inet.arrtoip b = printBytes '.' b.bytes

theorem length_upTo {p : Char → Bool} {n : ℕ} (h : t ∈ (Regex.upTo n (.cls p)).lang) :
    t.length ≤ n := by
  induction n generalizing t with
  | zero =>
    obtain rfl : t = [] := h
    simp
  | succ n ih =>
    rcases h with h | h
    · obtain rfl : t = [] := h
      simp
    · obtain ⟨c, rest, rfl, -, hrest⟩ := Regex.mem_lang_cls_seq.1 h
      simpa using ih hrest

theorem decimal_length : ∀ n < 256, 1 ≤ (decimal n).length ∧ (decimal n).length ≤ 3 := by
  intro n hn
  obtain ⟨hread, -⟩ := readByte_decimal n hn
  unfold readByte at hread
  split at hread
  · rename_i hshape
    simp only [Bool.and_eq_true] at hshape
    obtain ⟨c, rest, hc, -, hrest⟩ := Regex.mem_lang_cls_seq.1 (Regex.accepts_iff.1 hshape.1)
    have := length_upTo hrest
    rw [hc, List.length_cons]
    omega
  · cases hread

/-- The text of a private address. -/
theorem private_text (hdot : Dotted inet) (h : privateAddress inet t = some a) :
    7 ≤ a.length ∧ a.length ≤ 15 ∧ ∀ c ∈ a, c = '.' ∨ isDigit c = true := by
  simp only [privateAddress, Option.bind_eq_bind, Option.bind_eq_some_iff] at h
  obtain ⟨b, -, h⟩ := h
  split at h
  · rename_i hprivate
    cases h
    unfold isPrivate at hprivate
    split at hprivate
    · rename_i w x y z hb
      have hlt := b.lt
      rw [hdot b (by simp [hb])]
      refine ⟨?_, ?_, fun c hc => mem_printBytes hlt hc⟩
      · rw [hb] at hlt ⊢
        have hw := decimal_length w (hlt w (by simp))
        have hx := decimal_length x (hlt x (by simp))
        have hy := decimal_length y (hlt y (by simp))
        have hz := decimal_length z (hlt z (by simp))
        simp [printBytes, List.intercalate_cons_cons]
        omega
      · rw [hb] at hlt ⊢
        have hw := decimal_length w (hlt w (by simp))
        have hx := decimal_length x (hlt x (by simp))
        have hy := decimal_length y (hlt y (by simp))
        have hz := decimal_length z (hlt z (by simp))
        simp [printBytes, List.intercalate_cons_cons]
        omega
    · cases hprivate
  · cases h

theorem isDevice_iff : isDevice t = true ↔
    1 ≤ t.length ∧ t.length ≤ 32 ∧ ∀ c ∈ t, isDeviceChar c = true := by
  simp [isDevice, and_assoc]

theorem readElement_print (hdot : Dotted inet) (h : row.Fine inet) :
    readElement row.print = some row := by
  obtain ⟨hdevice, haddress⟩ := h
  obtain ⟨hlow, hhigh, hchars⟩ := private_text hdot haddress
  have hall := (isDevice_iff.1 hdevice).2.2
  have hquote : isDeviceChar '"' = false := by decide
  have htail : "\" . ".toList = ['"', ' ', '.', ' '] := rfl
  have hprint : row.print = '"' :: (row.device ++ ('"' :: ' ' :: '.' :: ' ' :: row.address)) := by
    simp [Binding.print, htail]
  have htake : (row.device ++ '"' :: ' ' :: '.' :: ' ' :: row.address).takeWhile isDeviceChar =
      row.device := by
    rw [List.takeWhile_append_of_pos hall, List.takeWhile_cons_of_neg (by simp [hquote])]
    simp
  have hdrop : (row.device ++ '"' :: ' ' :: '.' :: ' ' :: row.address).dropWhile isDeviceChar =
      "\" . ".toList ++ row.address := by
    rw [List.dropWhile_append_of_pos hall, List.dropWhile_cons_of_neg (by simp [hquote])]
    rfl
  have hchars' : ∀ c ∈ row.address, (isDigit c || c = '.') = true := by
    intro c hc
    rcases hchars c hc with rfl | hd
    · rfl
    · simp [hd]
  rw [hprint]
  simp only [readElement, htake, hdrop]
  rw [List.dropPrefix?_append_of_beq _ (by simp)]
  simp only [Option.bind_eq_bind, Option.bind_some]
  rw [if_pos ⟨hdevice, hlow, hhigh, hchars'⟩]

/-- What is read is what would be printed. -/
theorem print_of_readElement (h : readElement part = some row) : row.print = part := by
  unfold readElement at h
  split at h
  · rename_i rest
    simp only [Option.bind_eq_bind, Option.bind_eq_some_iff] at h
    obtain ⟨address, haddress, h⟩ := h
    obtain ⟨head, hhead, heq⟩ := List.dropPrefix?_eq_some_iff.1 haddress
    split at h
    · cases h
      rw [beq_iff_eq] at heq
      subst heq
      unfold Binding.print
      rw [List.cons_append, List.cons_append, List.append_assoc, ← hhead,
        List.takeWhile_append_dropWhile]
    · cases h
  · cases h

/-! What the parser accepts. -/

/-- What the loop of the parser knows of the parts that it has read. -/
structure ParsedOk (inet : Inet) (done : List Text) (parsed : Parsed) : Prop where
  seen : parsed.seen = done
  prints : parsed.result.map Binding.print = done
  nodup : done.Nodup
  isPrivate : ∀ row ∈ parsed.result, privateAddress inet row.address = some row.address
  covers : ∀ row ∈ parsed.result, row.device ∈ parsed.devices
  devices : parsed.devices.length ≤ 8

theorem parsePart_ok {done : List Text} {parsed parsed' : Parsed} (hok : ParsedOk inet done parsed)
    (h : parsePart inet parsed part = .ok parsed') : ParsedOk inet (done ++ [part]) parsed' := by
  unfold parsePart at h
  split at h
  · cases h
  · rename_i found hfound
    simp only [bind_eq_ok, require_eq_ok, pure_eq_ok] at h
    obtain ⟨_, ⟨haddress, hnew⟩, _, hdevices, rfl⟩ := h
    refine ⟨by simp [hok.seen], ?_, ?_, ?_, ?_, hdevices⟩
    · simp [hok.prints, print_of_readElement hfound]
    · rw [hok.seen] at hnew
      exact hok.nodup.append (by simp) (by simpa using hnew)
    · intro row hrow
      rcases List.mem_append.1 hrow with hrow | hrow
      · exact hok.isPrivate row hrow
      · rw [List.mem_singleton.1 hrow]
        exact haddress
    · intro row hrow
      dsimp only
      rcases List.mem_append.1 hrow with hrow | hrow
      · have := hok.covers row hrow
        split
        · exact this
        · exact List.mem_append_left _ this
      · rw [List.mem_singleton.1 hrow]
        split
        · assumption
        · simp

/-- A set that is accepted is written back as it was read. -/
theorem parse_sound (h : parseFirewallSet inet raw = .ok bindings) :
    firewallSet inet bindings = .ok raw ∧ bindings.Nodup ∧
    (bindings.map Binding.device).dedup.length ≤ 8 ∧ bindings.length ≤ 16 ∧
    ∀ row ∈ bindings, privateAddress inet row.address = some row.address := by
  simp only [parseFirewallSet, bind_eq_ok, require_eq_ok] at h
  obtain ⟨_, -, h⟩ := h
  split at h
  · rename_i hempty
    cases h
    exact ⟨hempty, by simp⟩
  · split at h
    · cases h
    · rename_i elements _
      simp only [bind_eq_ok, require_eq_ok, pure_eq_ok] at h
      obtain ⟨_, ⟨-, hlength⟩, parsed, hparsed, _, hprint, rfl⟩ := h
      have hok : ParsedOk inet (splitComma elements) parsed :=
        foldlM_prefix (fun _ _ _ _ hi hs => parsePart_ok hi hs)
          ⟨rfl, rfl, by simp, by simp, by simp, by simp⟩ hparsed
      refine ⟨hprint, ?_, ?_, ?_, hok.isPrivate⟩
      · exact List.Nodup.of_map _ (hok.prints.symm ▸ hok.nodup)
      · refine le_trans (List.Subperm.length_le ?_) hok.devices
        refine List.subperm_of_subset (List.nodup_dedup _) fun device hdevice => ?_
        obtain ⟨row, hrow, rfl⟩ := List.mem_map.1 (List.mem_dedup.1 hdevice)
        exact hok.covers row hrow
      · rw [← hok.prints, List.length_map] at hlength
        exact hlength

/-! What the router listens on. -/

/-- What the main loop knows of what it has bound. -/
structure BoundOk (inet : Inet) (selected : List Text) (bound : Bound) : Prop where
  seen : bound.result.map (fun row => row.device ++ ' ' :: row.address) = bound.seen
  nodup : bound.seen.Nodup
  length : bound.result.length ≤ 16
  fine : ∀ row ∈ bound.result, row.device ∈ selected ∧
    privateAddress inet row.address = some row.address

theorem privateAddress_self (h : privateAddress inet t = some a) :
    privateAddress inet a = some a := by
  simp only [privateAddress, Option.bind_eq_bind, Option.bind_eq_some_iff] at h ⊢
  obtain ⟨b, -, h⟩ := h
  split at h
  · rename_i hprivate
    cases h
    exact ⟨b, inet.iptoarr_arrtoip b, if_pos hprivate⟩
  · cases h

theorem bindAddress_ok {selected : List Text} {device : Text} {bound bound' : Bound}
    {item : Option (Field Text)} (hd : device ∈ selected) (hok : BoundOk inet selected bound)
    (h : bindAddress inet device bound item = .ok bound') : BoundOk inet selected bound' := by
  unfold bindAddress at h
  split at h
  · cases h
    exact hok
  · rename_i address haddress
    dsimp only at h
    split at h
    · cases h
      exact hok
    · rename_i hnew
      simp only [bind_eq_ok, require_eq_ok, pure_eq_ok] at h
      obtain ⟨_, hroom, rfl⟩ := h
      obtain ⟨value, -, hprivate⟩ := Option.bind_eq_some_iff.1 haddress
      refine ⟨by simp [hok.seen], ?_, ?_, ?_⟩
      · exact hok.nodup.append (by simp) (by simpa using hnew)
      · rw [List.length_append, List.length_singleton]
        omega
      · intro row hrow
        rcases List.mem_append.1 hrow with hrow | hrow
        · exact hok.fine row hrow
        · rw [List.mem_singleton.1 hrow]
          exact ⟨hd, privateAddress_self hprivate⟩

theorem bindStatus_ok {selected : List Text} {bound bound' : Bound} {status : Option Status}
    (hok : BoundOk inet selected bound) (h : bindStatus inet selected bound status = .ok bound') :
    BoundOk inet selected bound' := by
  unfold bindStatus at h
  split at h
  · cases h
    exact hok
  · split at h
    · split at h
      · rename_i hd
        simp only [bind_eq_ok, require_eq_ok] at h
        obtain ⟨_, -, _, -, h⟩ := h
        split at h
        · cases h
          exact hok
        · cases h
        · simp only [bind_eq_ok, require_eq_ok] at h
          obtain ⟨_, -, h⟩ := h
          exact foldlM_prefix (I := fun _ => BoundOk inet selected)
            (fun _ _ _ _ hi hs => bindAddress_ok hd hi hs) hok h
      · cases h
        exact hok
    · cases h
      exact hok

theorem lanDevices_ok {statuses : List (Option Status)} :
    ∀ device ∈ lanDevices statuses, isDevice device = true := by
  unfold lanDevices
  induction statuses using List.reverseRecOn with
  | nil => simp
  | append_singleton statuses status ih =>
    rw [List.foldl_append, List.foldl_cons, List.foldl_nil]
    split
    · split
      · rename_i hnew
        intro device hdevice
        rcases List.mem_append.1 hdevice with hdevice | hdevice
        · exact ih device hdevice
        · rw [List.mem_singleton.1 hdevice]
          exact hnew.2.1
      · exact ih
    · exact ih

theorem selectedDevices_ok {statuses : List (Option Status)}
    {configured : Field (List (Field Text))}
    {selected : List Text} (h : selectedDevices statuses configured = .ok selected) :
    ∀ device ∈ selected, isDevice device = true := by
  unfold selectedDevices at h
  split at h
  · cases h
    exact lanDevices_ok
  · cases h
  · simp only [bind_eq_ok, require_eq_ok] at h
    obtain ⟨_, -, h⟩ := h
    refine foldlM_prefix (I := fun _ selected => ∀ device ∈ selected, isDevice device = true)
      ?_ (by simp) h
    intro _ selected item selected' hi hs
    split at hs
    · simp only [bind_eq_ok, require_eq_ok, pure_eq_ok] at hs
      obtain ⟨_, ⟨hdevice, -⟩, rfl⟩ := hs
      intro device hmem
      rcases List.mem_append.1 hmem with hmem | hmem
      · exact hi device hmem
      · rw [List.mem_singleton.1 hmem]
        exact hdevice
    · cases hs

/-- What `listeners` returns: at most sixteen pairs of at most eight devices, each once, and each
with a private address. -/
theorem listeners_ok {statuses : Field (List (Option Status))}
    {configured : Field (List (Field Text))}
    (h : listeners inet statuses configured = .ok bindings) :
    bindings ≠ [] ∧ bindings.length ≤ 16 ∧ bindings.Nodup ∧ (∀ row ∈ bindings, row.Fine inet) ∧
    ∃ selected : List Text, selected.length ≤ 8 ∧ ∀ row ∈ bindings, row.device ∈ selected := by
  unfold listeners at h
  split at h
  · simp only [bind_eq_ok, require_eq_ok, pure_eq_ok] at h
    obtain ⟨_, -, selected, hselected, _, ⟨-, hfew⟩, bound, hbound, _, hne, rfl⟩ := h
    have hok : BoundOk inet selected bound :=
      foldlM_prefix (I := fun _ => BoundOk inet selected)
        (fun _ _ _ _ hi hs => bindStatus_ok hi hs)
        ⟨rfl, List.nodup_nil, by simp, by simp⟩ hbound
    refine ⟨hne, hok.length, List.Nodup.of_map _ (hok.seen.symm ▸ hok.nodup), ?_, selected, hfew,
      fun row hrow => (hok.fine row hrow).1⟩
    intro row hrow
    obtain ⟨hdevice, hprivate⟩ := hok.fine row hrow
    exact ⟨selectedDevices_ok hselected _ hdevice, hprivate⟩
  · cases h

/-! A printed set is read back. -/

theorem print_plain (hdot : Dotted inet) (h : row.Fine inet) :
    ',' ∉ row.print ∧ row.print.length ≤ 52 := by
  obtain ⟨hdevice, haddress⟩ := h
  obtain ⟨-, hhigh, hchars⟩ := private_text hdot haddress
  obtain ⟨-, hshort, hall⟩ := isDevice_iff.1 hdevice
  constructor
  · intro hc
    unfold Binding.print at hc
    rcases List.mem_append.1 hc with hc | hc
    · rcases List.mem_append.1 hc with hc | hc
      · rcases List.mem_cons.1 hc with hc | hc
        · cases hc
        · have := hall ',' hc
          revert this
          decide
      · revert hc
        decide
    · rcases hchars ',' hc with hc | hc
      · cases hc
      · revert hc
        decide
  · have hmiddle : "\" . ".toList.length = 4 := rfl
    simp only [Binding.print, List.length_append, List.length_cons, hmiddle]
    omega

theorem length_intercalate (h : ∀ part ∈ parts, part.length ≤ 52) :
    (", ".toList.intercalate parts).length ≤ 54 * parts.length := by
  rw [comma_eq]
  induction parts with
  | nil => simp
  | cons part parts ih =>
    have hpart := h part List.mem_cons_self
    have ih := ih fun p hp => h p (List.mem_cons_of_mem _ hp)
    cases parts with
    | nil =>
      simp only [List.intercalate_singleton, List.length_cons, List.length_nil]
      omega
    | cons next parts =>
      simp only [List.intercalate_cons_cons, List.length_append, List.length_cons,
        List.length_nil] at ih ⊢
      omega

/-- The loop of the parser over the printed elements. -/
theorem parsePart_run (hdot : Dotted inet) {selected : List Text} (hfew : selected.length ≤ 8)
    {parsed : Parsed} (hrows : ∀ row ∈ rows, row.Fine inet ∧ row.device ∈ selected)
    (hnodup : (parsed.result ++ rows).Nodup)
    (hseen : ∀ row ∈ rows, row.print ∈ parsed.seen → row ∈ parsed.result)
    (hd : parsed.devices.Nodup) (hds : parsed.devices ⊆ selected) :
    ∃ devices, (rows.map Binding.print).foldlM (parsePart inet) parsed =
      .ok ⟨parsed.result ++ rows, parsed.seen ++ rows.map Binding.print, devices⟩ := by
  induction rows generalizing parsed with
  | nil => exact ⟨parsed.devices, by simp [pure, Except.pure]⟩
  | cons row rows ih =>
    obtain ⟨hfine, hdevice⟩ := hrows row List.mem_cons_self
    have hread := readElement_print hdot hfine
    have hnew : row.print ∉ parsed.seen := fun hs =>
      (List.disjoint_of_nodup_append hnodup) (hseen row List.mem_cons_self hs) List.mem_cons_self
    obtain ⟨devices, hdevices, hnd, hsub⟩ :
      ∃ devices, devices = (if row.device ∈ parsed.devices then
        parsed.devices else parsed.devices ++ [row.device]) ∧ devices.Nodup ∧
        devices ⊆ selected := by
      by_cases hmem : row.device ∈ parsed.devices
      · exact ⟨_, rfl, by simpa [hmem] using hd, by simpa [hmem] using hds⟩
      · refine ⟨_, rfl, ?_, ?_⟩
        · simpa [hmem] using hd.append (by simp) (by simpa using hmem)
        · simpa [hmem] using ⟨hds, hdevice⟩
    have hle : devices.length ≤ 8 :=
      (List.subperm_of_subset hnd hsub).length_le.trans hfew
    have hstep : parsePart inet parsed row.print =
        .ok ⟨parsed.result ++ [row], parsed.seen ++ [row.print], devices⟩ := by
      simp only [parsePart, hread]
      refine bind_eq_ok.2 ⟨(), require_eq_ok.2 ⟨hfine.2, hnew⟩, ?_⟩
      rw [← hdevices]
      exact bind_eq_ok.2 ⟨(), require_eq_ok.2 hle, rfl⟩
    have hseen' : ∀ r ∈ rows, r.print ∈ parsed.seen ++ [row.print] →
        r ∈ parsed.result ++ [row] := by
      intro r hr hs
      rcases List.mem_append.1 hs with hs | hs
      · exact List.mem_append_left _ (hseen r (List.mem_cons_of_mem _ hr) hs)
      · have hprint := List.mem_singleton.1 hs
        have hboth := readElement_print hdot (hrows r (List.mem_cons_of_mem _ hr)).1
        rw [hprint, hread] at hboth
        exact List.mem_append_right _ (List.mem_singleton.2 (Option.some.inj hboth).symm)
    obtain ⟨final, hfinal⟩ := @ih ⟨parsed.result ++ [row], parsed.seen ++ [row.print], devices⟩
      (fun r hr => hrows r (List.mem_cons_of_mem _ hr)) (by simpa using hnodup) hseen' hnd hsub
    refine ⟨final, ?_⟩
    rw [List.map_cons, List.foldlM_cons, hstep]
    simpa [bind, Except.bind] using hfinal

theorem firewallSet_rows (hne : rows ≠ []) (hrows : ∀ row ∈ rows, row.Fine inet) :
    firewallSet inet rows = .ok (elementsHead ++
      (", ".toList.intercalate (rows.map Binding.print) ++ elementsTail)) := by
  have hcons : ", ".toList.intercalate (rows.map Binding.print) ≠ [] := by
    cases rows with
    | nil => exact absurd rfl hne
    | cons row rows =>
      cases rows <;> simp [List.intercalate_cons_cons, Binding.print]
  simp only [firewallSet, firewallElements]
  refine bind_eq_ok.2 ⟨_, bind_eq_ok.2 ⟨(), require_eq_ok.2 hrows, rfl⟩, ?_⟩
  rw [if_pos hcons]
  have htail : elementsTail = " \x7d;".toList ++ " \x7d\n".toList := rfl
  simp only [elementsHead, htail, List.append_assoc]
  rfl

theorem firewallSet_nil : firewallSet inet [] = .ok (setHead ++ " \x7d\n".toList) := rfl

theorem parse_print (hdot : Dotted inet) (hne : rows ≠ []) (hlength : rows.length ≤ 16)
    (hnodup : rows.Nodup) (hrows : ∀ row ∈ rows, row.Fine inet) {selected : List Text}
    (hfew : selected.length ≤ 8) (hsel : ∀ row ∈ rows, row.device ∈ selected) :
    ∃ raw, firewallSet inet rows = .ok raw ∧ parseFirewallSet inet raw = .ok rows := by
  have hset := firewallSet_rows hne hrows
  generalize hel : ", ".toList.intercalate (rows.map Binding.print) = elements at hset
  have hparts : splitComma elements = rows.map Binding.print := by
    rw [← hel]
    refine splitComma_join (by simpa using hne) ?_
    intro part hpart
    obtain ⟨row, hrow, rfl⟩ := List.mem_map.1 hpart
    exact (print_plain hdot (hrows row hrow)).1
  have hbytes : elements.length ≤ 54 * rows.length := by
    rw [← hel]
    have := @length_intercalate (rows.map Binding.print) fun part hpart => by
      obtain ⟨row, hrow, rfl⟩ := List.mem_map.1 hpart
      exact (print_plain hdot (hrows row hrow)).2
    rwa [List.length_map] at this
  obtain ⟨devices, hrun⟩ := @parsePart_run _ rows hdot selected hfew ⟨[], [], []⟩
    (fun row hrow => ⟨hrows row hrow, hsel row hrow⟩) (by simpa using hnodup) (by simp)
    List.nodup_nil (by simp)
  refine ⟨_, hset, ?_⟩
  have hhead : elementsHead.length = 69 := rfl
  have htail : elementsTail.length = 6 := rfl
  have hother : firewallSet inet [] ≠ .ok (elementsHead ++ (elements ++ elementsTail)) := by
    rw [firewallSet_nil, elementsHead, List.append_assoc]
    intro h
    have := List.append_cancel_left (Except.ok.inj h)
    cases this
  unfold parseFirewallSet
  refine bind_eq_ok.2 ⟨(), require_eq_ok.2 ⟨?_, ?_⟩, ?_⟩
  · intro h
    have := congrArg List.length h
    simp [hhead] at this
  · simp only [List.length_append, hhead, htail]
    omega
  · rw [if_neg hother, List.dropPrefix?_append_of_beq _ (by simp), Option.bind_some]
    have hdrop : (elements ++ elementsTail).dropSuffix? elementsTail = some elements :=
      List.dropSuffix?_eq_some_iff.2 ⟨_, rfl, by simp⟩
    simp only [hdrop, hparts]
    refine bind_eq_ok.2 ⟨(), require_eq_ok.2 ⟨by simpa using hne, by simpa using hlength⟩, ?_⟩
    refine bind_eq_ok.2 ⟨_, hrun, ?_⟩
    exact bind_eq_ok.2 ⟨(), require_eq_ok.2 hset, rfl⟩

/-- The set that is written for the listeners is read back as it was, and a set that is accepted
is the one that would be written. -/
theorem firewall_set_round_trip (hdot : Dotted inet) :
    (∀ statuses configured bindings, listeners inet statuses configured = .ok bindings →
      ∃ raw, firewallSet inet bindings = .ok raw ∧ parseFirewallSet inet raw = .ok bindings) ∧
    ∀ raw bindings, parseFirewallSet inet raw = .ok bindings →
      firewallSet inet bindings = .ok raw ∧ bindings.Nodup ∧
      (bindings.map Binding.device).dedup.length ≤ 8 ∧ bindings.length ≤ 16 ∧
      ∀ row ∈ bindings, privateAddress inet row.address = some row.address := by
  refine ⟨?_, fun raw bindings h => parse_sound h⟩
  intro statuses configured bindings h
  obtain ⟨hne, hlength, hnodup, hfine, selected, hfew, hsel⟩ := listeners_ok h
  exact parse_print hdot hne hlength hnodup hfine hfew hsel

def lanStatus : Status where
  interface := .value "lan".toList
  up := true
  l3Device := .value "br-lan".toList
  route := .missing
  ipv4Address := .value [some (.value "192.168.1.1".toList), some (.value "8.8.8.8".toList), none,
    some (.value "192.168.1.1".toList), some (.value "10.0.0.1".toList)]

theorem firewall_set_lan : ∃ bindings raw,
    listeners decimalInet (.value [some lanStatus]) .missing = .ok bindings ∧
    bindings.length = 2 ∧ firewallSet decimalInet bindings = .ok raw ∧
    parseFirewallSet decimalInet raw = .ok bindings := by
  obtain ⟨hprint, -⟩ := @firewall_set_round_trip decimalInet fun b hb => by
    simp [decimalInet, IpBytes.sep, hb]
  have h : listeners decimalInet (.value [some lanStatus]) .missing =
      .ok [⟨"192.168.1.1".toList, "br-lan".toList⟩, ⟨"10.0.0.1".toList, "br-lan".toList⟩] := by
    decide
  obtain ⟨raw, hraw, hparse⟩ := hprint _ _ _ h
  exact ⟨_, raw, h, rfl, hraw, hparse⟩

end Foxhole.MobileNetwork
