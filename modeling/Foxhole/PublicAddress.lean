import Foxhole.AddressLaws
import Foxhole.LeaseMarks

/-! Public addresses as handoff.uc tells them, against the ranges that `classify` lets by. -/
namespace Foxhole.Handoff
open Check Text Address Routing Nft

variable {inet : Inet} {b base : IpBytes} {text : Text} {n w x y z : ℕ}
  {options : Options}

/-- A range as it is written: the bytes in front of its prefix length. -/
structure Range where
  bytes : List ℕ
  prefixLen : ℕ
  text : Text
deriving DecidableEq

/-- The bytes that the prefix leaves of an address. -/
def kept (n : ℕ) (bytes : List ℕ) : List ℕ := bytes.mapIdx fun i b => maskByte (n - i * 8) b

def ranges4 : List Range :=
  [([0, 0, 0, 0], 8), ([10, 0, 0, 0], 8), ([100, 64, 0, 0], 10), ([127, 0, 0, 0], 8),
    ([169, 254, 0, 0], 16), ([172, 16, 0, 0], 12), ([192, 0, 0, 0], 24), ([192, 0, 2, 0], 24),
    ([192, 168, 0, 0], 16), ([198, 18, 0, 0], 15), ([198, 51, 100, 0], 24),
    ([203, 0, 113, 0], 24), ([224, 0, 0, 0], 4), ([240, 0, 0, 0], 4)].map fun row =>
      ⟨row.1, row.2, printBytes '.' row.1⟩

def ranges6 : List Range :=
  [⟨List.replicate 16 0, 128, "::".toList⟩,
    ⟨List.replicate 15 0 ++ [1], 128, "::1".toList⟩,
    ⟨1 :: List.replicate 15 0, 64, "100::".toList⟩,
    ⟨[0x20, 0x01, 0x0d, 0xb8] ++ List.replicate 12 0, 32, "2001:db8::".toList⟩,
    ⟨0xfc :: List.replicate 15 0, 7, "fc00::".toList⟩,
    ⟨0xfe :: 0x80 :: List.replicate 14 0, 10, "fe80::".toList⟩,
    ⟨0xff :: List.replicate 15 0, 8, "ff00::".toList⟩]

def Range.print (range : Range) : Text := range.text ++ '/' :: decimal range.prefixLen

theorem bypass4_eq : bypass4 = ranges4.map Range.print := by decide

theorem bypass6_eq : bypass6 = ranges6.map Range.print := by decide

/-- The ranges are written as `arrtoip` prints their first addresses: IPv4 in dotted decimal, and
the shortest forms of the seven IPv6 addresses. -/
structure Prints (inet : Inet) : Prop where
  v4 : ∀ b : IpBytes, b.bytes.length = 4 → inet.arrtoip b = printBytes '.' b.bytes
  v6 : ∀ range ∈ ranges6, ∀ b : IpBytes, b.bytes = range.bytes → inet.arrtoip b = range.text

/-- A range whose first address is printed like this. -/
theorem inRange_print {range : Range} (hbase : base.bytes = range.bytes)
    (htext : inet.arrtoip base = range.text) (hle : range.prefixLen ≤ base.width)
    (hkept : kept range.prefixLen range.bytes = range.bytes)
    (hlen : b.bytes.length = range.bytes.length) :
    inRange inet b range.print = true ↔ kept range.prefixLen b.bytes = range.bytes := by
  let info : Info := ⟨base, range.prefixLen, true, hle, by simp⟩
  have hmasked : maskBytes range.prefixLen base = base := by
    ext1
    exact (congrArg (kept range.prefixLen) hbase).trans (hkept.trans hbase.symm)
  have hprint : canonicalAddress inet info = range.print := by
    simp [canonicalAddress, info, hmasked, htext, Range.print]
  have hread := hprint ▸ @addressData_canonicalAddress inet info
  have hwidth : b.width = info.masked.bytes.width := by
    rw [IpBytes.width_eq_iff, hlen, ← hbase]
    exact (congrArg (·.bytes.length) hmasked).symm
  unfold inRange
  rw [hread]
  simp only [Bool.and_eq_true, decide_eq_true_eq, hwidth, true_and]
  have hbytes : info.masked.bytes = base := hmasked
  have hn : info.masked.prefixLen = range.prefixLen := rfl
  rw [hbytes, hn, hmasked, IpBytes.ext_iff, hbase]
  rfl

theorem ranges4_fine : ∀ range ∈ ranges4, range.bytes.length = 4 ∧ (∀ b ∈ range.bytes, b < 256) ∧
    range.prefixLen ≤ 32 ∧ kept range.prefixLen range.bytes = range.bytes ∧
    range.text = printBytes '.' range.bytes := by
  decide

theorem ranges6_fine : ∀ range ∈ ranges6, range.bytes.length = 16 ∧ (∀ b ∈ range.bytes, b < 256) ∧
    range.prefixLen ≤ 128 ∧ kept range.prefixLen range.bytes = range.bytes := by
  decide

/-- An IPv4 address lies in no range that is let by. -/
theorem outside4 (h : Prints inet) (hb : b.bytes.length = 4) :
    (∀ range ∈ bypass4, inRange inet b range = false) ↔
      ∀ range ∈ ranges4, kept range.prefixLen b.bytes ≠ range.bytes := by
  rw [bypass4_eq, List.forall_mem_map]
  refine forall₂_congr fun range hrange => ?_
  obtain ⟨hlen, hlt, hle, hkept, htext⟩ := ranges4_fine range hrange
  let base : IpBytes := ⟨range.bytes, Or.inl hlen, hlt⟩
  have hwidth : range.prefixLen ≤ base.width := by
    simpa [base, IpBytes.width, hlen] using hle
  have hbase : base.bytes = range.bytes := rfl
  rw [Bool.eq_false_iff, Ne, inRange_print hbase ((h.v4 base hlen).trans htext.symm) hwidth hkept
    (hb.trans hlen.symm)]

theorem outside6 (h : Prints inet) (hb : b.bytes.length = 16) :
    (∀ range ∈ bypass6, inRange inet b range = false) ↔
      ∀ range ∈ ranges6, kept range.prefixLen b.bytes ≠ range.bytes := by
  rw [bypass6_eq, List.forall_mem_map]
  refine forall₂_congr fun range hrange => ?_
  obtain ⟨hlen, hlt, hle, hkept⟩ := ranges6_fine range hrange
  let base : IpBytes := ⟨range.bytes, Or.inr hlen, hlt⟩
  have hwidth : range.prefixLen ≤ base.width := by
    simpa [base, IpBytes.width, hlen] using hle
  have hbase : base.bytes = range.bytes := rfl
  rw [Bool.eq_false_iff, Ne, inRange_print hbase (h.v6 range hrange base rfl) hwidth hkept
    (hb.trans hlen.symm)]

/-! The bytes that a prefix cuts through. -/

theorem maskByte_eq_div (hn : n < 8) (h0 : 0 < n) (hx : x < 256) :
    maskByte n x = x / 2 ^ (8 - n) * 2 ^ (8 - n) := by
  unfold maskByte
  rw [if_neg (by omega), if_pos hn]
  exact and_mask _ (by omega) x hx

theorem hostAddress_arrtoip : hostAddress inet (inet.arrtoip b) = some (inet.arrtoip b) := by
  obtain ⟨info, hread, hhost, rfl⟩ := @addressData_arrtoip inet b
  simp [hostAddress, hread, hhost]

theorem public4_iff (hb : b.bytes = [w, x, y, z]) : publicAddress inet (inet.arrtoip b) = true ↔
    ∀ range ∈ ranges4, kept range.prefixLen b.bytes ≠ range.bytes := by
  have hw := b.lt w (by simp [hb])
  have hx := b.lt x (by simp [hb])
  have h100 := maskByte_eq_div (n := 2) (by omega) (by omega) hx
  have h172 := maskByte_eq_div (n := 4) (by omega) (by omega) hx
  have h198 := maskByte_eq_div (n := 7) (by omega) (by omega) hx
  have h224 := maskByte_eq_div (n := 4) (by omega) (by omega) hw
  have h8 (i : ℕ) (hi : 8 ≤ i) (k : ℕ) : maskByte i k = k := maskByte_of_le hi
  have h0 (k : ℕ) : maskByte 0 k = 0 := rfl
  simp only [publicAddress, hostAddress_arrtoip, inet.iptoarr_arrtoip, Option.map_some, hb]
  simp [ranges4, kept, List.mapIdx_cons, h8, h0, h100, h172, h198, h224]
  have hcgn : x / 64 = 1 ↔ 64 ≤ x ∧ x ≤ 127 := by omega
  have hprivate : x / 16 = 1 ↔ 16 ≤ x ∧ x ≤ 31 := by omega
  have hbench : x / 2 * 2 = 18 ↔ x = 18 ∨ x = 19 := by omega
  have hclass : (¬ w / 16 * 16 = 224 ∧ ¬ w / 16 * 16 = 240) ↔ w < 224 := by omega
  rw [hcgn, hprivate, hbench, hclass]
  clear h100 h172 h198 h224 hcgn hprivate hbench hclass h8 h0 hb hw hx
  constructor
  · rintro ⟨⟨⟨⟨⟨⟨⟨⟨⟨hzero, hclass⟩, h10⟩, h127⟩, h100⟩, h169⟩, h172⟩, h192⟩, h198⟩, h203⟩
    refine ⟨?_, ?_, ?_, ?_, ?_, ?_, ?_, ?_, ?_, ?_, ?_, ?_, ?_⟩ <;> grind
  · rintro ⟨h0, h10, h100, h127, h169, h172, h192, h192', h192'', h198, h198', h203, hclass⟩
    refine ⟨⟨⟨⟨⟨⟨⟨⟨⟨?_, ?_⟩, ?_⟩, ?_⟩, ?_⟩, ?_⟩, ?_⟩, ?_⟩, ?_⟩, ?_⟩ <;> grind

/-- A public IPv6 address begins with the bits 001, and not as the documentation range. -/
theorem public6 (hlen : b.bytes.length = 16) (h : publicAddress inet (inet.arrtoip b) = true) :
    ∃ w x y z rest, b.bytes = w :: x :: y :: z :: rest ∧ 0x20 ≤ w ∧ w ≤ 0x3f ∧
      ¬ (w = 0x20 ∧ x = 0x01 ∧ y = 0x0d ∧ z = 0xb8) := by
  rcases hb : b.bytes with _ | ⟨w, _ | ⟨x, _ | ⟨y, _ | ⟨z, _ | ⟨v, rest⟩⟩⟩⟩⟩
  all_goals simp only [hb, List.length_cons, List.length_nil] at hlen
  · omega
  · omega
  · omega
  · omega
  · omega
  simp only [publicAddress, hostAddress_arrtoip, inet.iptoarr_arrtoip, Option.map_some, hb] at h
  simp only [decide_true, Bool.true_and, Bool.and_eq_true, Bool.not_eq_true', Bool.and_eq_false_iff,
    Bool.or_eq_false_iff, decide_eq_true_eq, decide_eq_false_iff_not, ge_iff_le] at h
  obtain ⟨⟨⟨hlow, hhigh⟩, hdoc⟩, -⟩ := h
  refine ⟨w, x, y, z, v :: rest, rfl, hlow, hhigh, ?_⟩
  rintro ⟨hw, hx, hy, hz⟩
  rcases hdoc with (hno | hno) | ⟨-, hno | hno⟩
  · exact hno hw
  · exact hno hx
  · exact hno hy
  · exact hno hz

theorem outside_of_public6 (hlen : b.bytes.length = 16)
    (h : publicAddress inet (inet.arrtoip b) = true) :
    ∀ range ∈ ranges6, kept range.prefixLen b.bytes ≠ range.bytes := by
  obtain ⟨w, x, y, z, rest, hb, hlow, hhigh, hdoc⟩ := public6 hlen h
  have h7 := maskByte_eq_div (n := 7) (by omega) (by omega) (b.lt w (by simp [hb]))
  have h8 (i : ℕ) (hi : 8 ≤ i) (k : ℕ) : maskByte i k = k := maskByte_of_le hi
  intro range hrange hkept
  have hfour : (kept range.prefixLen b.bytes).take 4 = range.bytes.take 4 := by rw [hkept]
  simp only [ranges6, List.mem_cons, List.not_mem_nil, or_false] at hrange
  rcases hrange with rfl | rfl | rfl | rfl | rfl | rfl | rfl
  all_goals simp [kept, hb, List.mapIdx_cons, h8, h7] at hfour
  · omega
  · omega
  · omega
  · exact hdoc hfour
  · omega
  · omega
  · omega

/-- An address that is public is not let by. -/
theorem bypass_of_public (hp : Prints inet) (h : publicAddress inet (inet.arrtoip b) = true) :
    (Nft.elements options (.bypass b.family)).any (inRange inet b) = false := by
  have hall : ∀ range ∈ Nft.elements options (.bypass b.family), inRange inet b range = false := by
    rcases b.length_eq with hlen | hlen
    · have hfamily : b.family = .v4 := if_pos hlen
      rw [hfamily]
      rcases hb : b.bytes with _ | ⟨w, _ | ⟨x, _ | ⟨y, _ | ⟨z, _ | ⟨v, rest⟩⟩⟩⟩⟩
      all_goals simp only [hb, List.length_cons, List.length_nil] at hlen
      · omega
      · omega
      · omega
      · omega
      · exact (outside4 hp (by simp [hb])).2 ((public4_iff hb).1 h)
      · omega
    · have hfamily : b.family = .v6 := if_neg (by omega)
      rw [hfamily]
      exact (outside6 hp hlen).2 (outside_of_public6 hlen h)
  rw [List.any_eq_false]
  intro range hrange
  simp [hall range hrange]

/-- What `targets` accepts is public, as it is printed. -/
theorem public_of_targets {given accepted : List Target} {target : Target}
    (h : targets inet given = .ok accepted) (ht : target ∈ accepted)
    (hb : inet.iptoarr target.address = some b) : publicAddress inet (inet.arrtoip b) = true := by
  simp only [targets, bind_eq_ok, require_eq_ok, pure_eq_ok] at h
  obtain ⟨_, -, _, hvalid, _, -, rfl⟩ := h
  have hpublic := hvalid target ((List.perm_insertionSort _ given).mem_iff.1 ht)
  simp only [validTarget, Bool.and_eq_true] at hpublic
  have haddress := hpublic.1.1
  have hprinted : inet.arrtoip b = target.address := by
    unfold publicAddress at haddress
    simp only [Bool.and_eq_true, decide_eq_true_eq] at haddress
    have hhost := haddress.1
    unfold hostAddress at hhost
    split at hhost
    · cases hhost
    · split at hhost
      · rename_i info _ _
        have hprint := Option.some.inj hhost
        rw [← hprint, inet.iptoarr_arrtoip] at hb
        rw [← hprint, Option.some.inj hb]
      · cases hhost
  rw [hprinted]
  exact haddress

/-- On canonical IPv4 addresses the predicate and the ranges that are let by are complements, on
IPv6 they are disjoint. So a packet to a target of a lease that comes without the bit of the lease
goes where the owner's rules send it, and into the VPN where there are none. -/
theorem public_address_bypass (hp : Prints inet) :
    (∀ b : IpBytes, b.bytes.length = 4 → (publicAddress inet (inet.arrtoip b) = true ↔
      ∀ range ∈ bypass4, inRange inet b range = false)) ∧
    (∀ b : IpBytes, b.bytes.length = 16 → publicAddress inet (inet.arrtoip b) = true →
      ∀ range ∈ bypass6, inRange inet b range = false) ∧
    ∀ given accepted, targets inet given = .ok accepted → ∀ target ∈ accepted,
      ∀ state options table learned (p : Packet), nftConfig inet state options = .ok table →
        (∀ family b, learned (.bypass family) b = false) →
        inet.iptoarr target.address = some p.destination → p.mark &&& leaseMark = 0 →
        (state.settings.localRules = false →
          table.run inet learned .classify p = some (.accepted (p.withMark mark))) ∧
        ∀ flow, (∀ device ∈ state.devices, device.Ok inet) → Describes inet flow p →
          table.run inet learned .classify p = some (.accepted (p.withMark (routeMark
            (route ((deviceOf inet state flow).map (·.route)) (scope inet state flow)
              (table.member inet learned (.siteVpn p.destination.family) p.destination)
              (table.member inet learned (.siteDirect p.destination.family) p.destination)
              (table.member inet learned (.countryDirect p.destination.family)
                p.destination))))) := by
  refine ⟨?_, fun b hlen h => (outside6 hp hlen).2 (outside_of_public6 hlen h), ?_⟩
  · intro b hlen
    rcases hb : b.bytes with _ | ⟨w, _ | ⟨x, _ | ⟨y, _ | ⟨z, _ | ⟨v, rest⟩⟩⟩⟩⟩
    all_goals simp only [hb, List.length_cons, List.length_nil] at hlen
    · omega
    · omega
    · omega
    · omega
    · rw [public4_iff hb, outside4 hp (by simp [hb])]
    · omega
  · intro given accepted htargets target htarget state options table learned p htable hlearned hb
      hlease
    have hpublic := public_of_targets htargets htarget hb
    obtain ⟨interfaces, uid, hrun⟩ := @tableRun_eq _ _ _ _ learned htable
    have hmember : table.member inet learned (.bypass p.destination.family) p.destination =
        false := by
      obtain ⟨_, -, -, -, -, rfl⟩ := nftConfig_eq_ok.1 htable
      unfold Table.member
      rw [bypass_of_public hp hpublic, hlearned]
      rfl
    refine ⟨fun hl => ?_, fun flow hd hdescribes => ?_⟩
    · rw [hrun, run_classify_rest hlease hmember]
      have hnone : localRules inet state = [] := by simp [localRules, hl]
      rw [hnone]
      exact Chains.runRules_jump_accepted rfl rfl run_markVpn
    · rw [hrun]
      exact run_classify hd hdescribes hlease hmember

/-! An `arrtoip` with the shortest forms that the ranges use. -/

def shortInet : Inet where
  iptoarr t :=
    match ranges6.find? (·.text = t) with
    | some range => ofBytes 16 range.bytes
    | none => decimalInet.iptoarr t
  arrtoip b :=
    match ranges6.find? (·.bytes = b.bytes) with
    | some range => range.text
    | none => decimalInet.arrtoip b
  iptoarr_nil := by decide
  iptoarr_arrtoip b := by
    cases hfind : ranges6.find? (·.bytes = b.bytes) with
    | some range =>
      have hmem := List.mem_of_find?_eq_some hfind
      have hbytes : range.bytes = b.bytes := by simpa using List.find?_some hfind
      have hback : ∀ range ∈ ranges6, ranges6.find? (·.text = range.text) = some range := by
        decide
      simp only [hback range hmem]
      rw [hbytes]
      exact ofBytes_bytes b (hbytes ▸ (ranges6_fine range hmem).1)
    | none =>
      have hno : ranges6.find? (·.text = decimalInet.arrtoip b) = none := by
        rw [List.find?_eq_none]
        intro range hmem htext
        have hread : ∀ range ∈ ranges6, decimalInet.iptoarr range.text = none := by decide
        have := hread range hmem
        rw [of_decide_eq_true htext, decimalInet.iptoarr_arrtoip] at this
        cases this
      simp only [hno, decimalInet.iptoarr_arrtoip]
  arrtoip_plain b c hc := by
    cases hfind : ranges6.find? (·.bytes = b.bytes) with
    | some range =>
      have hplain : ∀ range ∈ ranges6, ∀ c ∈ range.text, c ≠ '/' ∧ isSpace c = false := by decide
      simp only [hfind] at hc
      exact hplain range (List.mem_of_find?_eq_some hfind) c hc
    | none =>
      simp only [hfind] at hc
      exact decimalInet.arrtoip_plain b c hc

theorem shortInet_prints : Prints shortInet where
  v4 b hb := by
    have hno : ranges6.find? (·.bytes = b.bytes) = none := by
      rw [List.find?_eq_none]
      intro range hmem hbytes
      have := (ranges6_fine range hmem).1
      rw [of_decide_eq_true hbytes] at this
      omega
    simp [shortInet, hno, decimalInet, IpBytes.sep, hb]
  v6 range hrange b hb := by
    have hfind : ∀ range ∈ ranges6, ranges6.find? (·.bytes = range.bytes) = some range := by decide
    simp only [shortInet, hb, hfind range hrange]

theorem public_address_sample :
    (∀ range ∈ bypass4, inRange shortInet ⟨[9, 9, 9, 9], by decide, by decide⟩ range = false) ∧
    ∃ range ∈ bypass4, inRange shortInet ⟨[100, 127, 0, 1], by decide, by decide⟩ range = true := by
  have h := public_address_bypass shortInet_prints
  refine ⟨(h.1 _ rfl).1 (by decide), ?_⟩
  by_contra hno
  push Not at hno
  have hpublic := (h.1 ⟨[100, 127, 0, 1], by decide, by decide⟩ rfl).2 fun range hrange =>
    Bool.eq_false_iff.2 (hno range hrange)
  exact absurd hpublic (by decide)

end Foxhole.Handoff
