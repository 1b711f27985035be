import Foxhole.Fencing
import Foxhole.RoutingRefinement

/-! The marks a packet from the LAN carries: the lease bit of table `inet foxhole_handoff`, which
runs first, and the bits that `classify` of table `inet foxhole` makes of it. -/
namespace Foxhole

namespace Handoff
open Check Text Chains Nft

variable {inet : Inet} {value : Journal} {pairs : Pairing.Record} {now age : ℤ} {boot : Text}
  {device : Field Text}

/-- An element of the sets `upstream4` and `upstream6`; its timeout runs from the load on. -/
structure Element where
  mac : Text
  address : Text
  transport : Text
  port : Field ℤ
  timeout : ℤ
deriving DecidableEq

inductive Match where
  | iifname (name : Text)
  /-- `ether saddr . ip daddr . meta l4proto . th dport @upstream` of a family -/
  | upstream (family : Family)
deriving DecidableEq

/-- As in table `inet foxhole`, the mark is set to itself under a mask, or a constant. -/
structure IngressRule where
  conditions : List Match := []
  setMark : BitVec 32 × BitVec 32
  verdict : Verdict Empty := .next
deriving DecidableEq

structure Table where
  elements : Family → List Element
  ingress : List IngressRule

/-- `length(iptoarr(address)) == 4 ? '4' : '6'` -/
def targetFamily (inet : Inet) (address : Text) : Family :=
  match inet.iptoarr address with
  | some b => b.family
  | none => .v6

def element (now : ℤ) (lease : Lease) (target : Target) : Element where
  mac := lease.mac
  address := target.address
  transport := target.transport
  port := target.port
  timeout := lease.expiresUptimeMs - now

def elements (inet : Inet) (leases : List Lease) (now : ℤ) (family : Family) : List Element :=
  leases.flatMap fun lease =>
    (lease.targets.filter fun target => targetFamily inet target.address = family).map
      (element now lease)

def upstreamRule (device : Text) (family : Family) : IngressRule where
  conditions := [.iifname device, .upstream family]
  setMark := (BitVec.allOnes 32, leaseMark)
  verdict := .accept

def ingressRules (device : Text) : List IngressRule :=
  [{ setMark := (0xf7ffffff, 0) }, upstreamRule device .v4, upstreamRule device .v6]

def nft (inet : Inet) (value : Journal) (pairs : Pairing.Record) (now : ℤ) (device : Field Text)
    (boot : Text) : Except Err Table := do
  let .value device := device | throw .invalidHandoff
  require (interfaceName.accepts device = true) .invalidHandoff
  let leases ← active inet value pairs now boot
  return ⟨elements inet leases now, ingressRules device⟩

/-- A packet with its transport header. -/
structure Frame extends Packet where
  transport : Text
  port : ℤ
  toDns_eq : toDns = (decide (transport ∈ ["tcp".toList, "udp".toList]) && decide (port = 53))
deriving DecidableEq

variable {f g : Frame}

/-- The element is the packet's tuple, and still there `age` milliseconds after the load. -/
def Element.holds (inet : Inet) (age : ℤ) (f : Frame) (e : Element) : Bool :=
  f.mac = lc e.mac && inet.iptoarr e.address = some f.destination && e.transport = f.transport &&
    e.port = .value f.port && age < e.timeout

def Match.holds (inet : Inet) (elements : Family → List Element) (age : ℤ) (f : Frame) :
    Match → Bool
  | iifname name => f.iif = name
  | upstream family =>
    f.destination.family = family && (elements family).any (Element.holds inet age f)

def IngressRule.compile (inet : Inet) (elements : Family → List Element) (age : ℤ)
    (rule : IngressRule) : Chains.Rule Empty Frame where
  applies f := rule.conditions.all (Match.holds inet elements age f)
  update f := { f with mark := f.mark &&& rule.setMark.1 ||| rule.setMark.2 }
  verdict := rule.verdict

/-- What the ingress hook lets through; its policy is accept. -/
def Table.passes (inet : Inet) (table : Table) (age : ℤ) (f : Frame) : Option Frame :=
  match runRules (fun chain : Empty => chain.elim)
    (table.ingress.map (IngressRule.compile inet table.elements age)) f with
  | some (.accepted g) | some (.returned g) => some g
  | _ => none

/-- The packet entered on the device and is one that a running lease has taken. -/
def Leased (inet : Inet) (value : Journal) (pairs : Pairing.Record) (now : ℤ) (device : Field Text)
    (boot : Text) (age : ℤ) (f : Frame) : Prop :=
  device = .value f.iif ∧ ∃ lease ∈ value.leases, lease.live pairs now boot = true ∧
    now + age < lease.expiresUptimeMs ∧ f.mac = lc lease.mac ∧
    ∃ target ∈ lease.targets, inet.iptoarr target.address = some f.destination ∧
      target.transport = f.transport ∧ target.port = .value f.port

theorem active_ok {leases : List Lease} (h : active inet value pairs now boot = .ok leases) :
    leases = value.leases.filter (·.live pairs now boot) := by
  unfold active journal at h
  simp only [bind_eq_ok, require_eq_ok, pure_eq_ok] at h
  obtain ⟨-, -, record, ⟨-, -, -, -, -, -, -, -, -, -, rfl⟩, rfl⟩ := h
  rfl

theorem nft_ok {table : Table} (h : nft inet value pairs now device boot = .ok table) :
    ∃ name, device = .value name ∧ table = ⟨elements inet
      (value.leases.filter (·.live pairs now boot)) now, ingressRules name⟩ := by
  unfold nft at h
  split at h
  · rename_i name
    simp only [bind_eq_ok, require_eq_ok, pure_eq_ok] at h
    obtain ⟨-, -, leases, hl, rfl⟩ := h
    exact ⟨name, rfl, by rw [active_ok hl]⟩
  · cases h

/-- The set of the packet's family holds its tuple. -/
theorem any_elements {leases : List Lease} :
    (elements inet leases now f.destination.family).any (Element.holds inet age f) = true ↔
      ∃ lease ∈ leases, now + age < lease.expiresUptimeMs ∧ f.mac = lc lease.mac ∧
        ∃ target ∈ lease.targets, inet.iptoarr target.address = some f.destination ∧
          target.transport = f.transport ∧ target.port = .value f.port := by
  simp only [elements, List.any_eq_true, List.mem_flatMap, List.mem_map, List.mem_filter,
    decide_eq_true_eq]
  constructor
  · rintro ⟨e, ⟨lease, hl, target, ⟨ht, -⟩, rfl⟩, h⟩
    simp only [Element.holds, Bool.and_eq_true, decide_eq_true_eq] at h
    obtain ⟨⟨⟨⟨hmac, haddr⟩, htransport⟩, hport⟩, hage⟩ := h
    have hleft : age < lease.expiresUptimeMs - now := hage
    exact ⟨lease, hl, by omega, hmac, target, ht, haddr, htransport, hport⟩
  · rintro ⟨lease, hl, hage, hmac, target, ht, haddr, htransport, hport⟩
    have hfamily : targetFamily inet target.address = f.destination.family := by
      rw [targetFamily, haddr]
    have hleft : age < lease.expiresUptimeMs - now := by omega
    refine ⟨element now lease target, ⟨lease, hl, target, ⟨ht, hfamily⟩, rfl⟩, ?_⟩
    simp only [Element.holds, Bool.and_eq_true, decide_eq_true_eq]
    exact ⟨⟨⟨⟨hmac, haddr⟩, htransport⟩, hport⟩, hleft⟩

theorem leased_iff {name : Text} :
    Leased inet value pairs now (.value name) boot age f ↔
      f.iif = name ∧ (elements inet (value.leases.filter (·.live pairs now boot)) now
        f.destination.family).any (Element.holds inet age f) = true := by
  rw [any_elements]
  simp only [Leased, List.mem_filter, Field.value.injEq, and_assoc, eq_comm]

theorem upstreamRule_applies {sets : Family → List Element} {name : Text} {family : Family} :
    ((upstreamRule name family).compile inet sets age).applies f = true ↔
      f.destination.family = family ∧ f.iif = name ∧
        (sets f.destination.family).any (Element.holds inet age f) = true := by
  simp only [IngressRule.compile, upstreamRule, Match.holds, List.all_cons, List.all_nil,
    Bool.and_true, Bool.and_eq_true, decide_eq_true_eq]
  constructor
  · rintro ⟨hi, rfl, hany⟩
    exact ⟨rfl, hi, hany⟩
  · rintro ⟨rfl, hi, hany⟩
    exact ⟨hi, rfl, hany⟩

/-- The mark after ingress: the lease bit is cleared, and set again for a leased packet. -/
theorem passes_ingress {table : Table} (h : nft inet value pairs now device boot = .ok table) :
    (Leased inet value pairs now device boot age f ∧ table.passes inet age f =
      some { f with mark := f.mark &&& 0xf7ffffff ||| leaseMark }) ∨
    (¬ Leased inet value pairs now device boot age f ∧ table.passes inet age f =
      some { f with mark := f.mark &&& 0xf7ffffff }) := by
  obtain ⟨name, rfl, rfl⟩ := nft_ok h
  rw [leased_iff]
  generalize elements inet (value.leases.filter (·.live pairs now boot)) now = sets
  simp only [Table.passes, ingressRules, List.map_cons, List.map_nil]
  rw [runRules_next rfl rfl]
  have hcleared : (IngressRule.compile inet sets age { setMark := (0xf7ffffff, 0) }).update f =
      { f with mark := f.mark &&& 0xf7ffffff } := by
    simp [IngressRule.compile]
  rw [hcleared]
  -- the sets do not look at the mark
  have happ : ∀ family, ((upstreamRule name family).compile inet sets age).applies
      { f with mark := f.mark &&& 0xf7ffffff } = true ↔ f.destination.family = family ∧
        f.iif = name ∧ (sets f.destination.family).any (Element.holds inet age f) = true :=
    fun _ => upstreamRule_applies
  by_cases hit : f.iif = name ∧ (sets f.destination.family).any (Element.holds inet age f) = true
  · refine Or.inl ⟨hit, ?_⟩
    cases hf : f.destination.family with
    | v4 =>
      rw [runRules_accept ((happ .v4).2 ⟨hf, hit⟩) rfl]
      simp only [IngressRule.compile, upstreamRule, BitVec.and_allOnes]
    | v6 =>
      have hskip : ((upstreamRule name .v4).compile inet sets age).applies
          { f with mark := f.mark &&& 0xf7ffffff } = false :=
        Bool.eq_false_iff.2 fun ha => by simpa [hf] using ((happ .v4).1 ha).1
      rw [runRules_skip hskip, runRules_accept ((happ .v6).2 ⟨hf, hit⟩) rfl]
      simp only [IngressRule.compile, upstreamRule, BitVec.and_allOnes]
  · refine Or.inr ⟨hit, ?_⟩
    have hskip : ∀ family, ((upstreamRule name family).compile inet sets age).applies
        { f with mark := f.mark &&& 0xf7ffffff } = false := fun family =>
      Bool.eq_false_iff.2 fun ha => hit ((happ family).1 ha).2
    rw [runRules_skip (hskip .v4), runRules_skip (hskip .v6), runRules_nil]

end Handoff

namespace Nft
open Check Chains Routing

variable {inet : Inet} {state : State} {options : Options} {table : Table} {learned : Learned}
  {member : SetName → IpBytes → Bool} {p q : Packet} {interfaces : List Text} {uid depth : ℕ}

/-- The packet as it was, or with the bit of a route. -/
def Routed (p q : Packet) : Prop := q = p ∨ ∃ r, q = p.withMark (routeMark r)

theorem scopedRules_routed :
    run (compiled inet state member interfaces uid options) (depth + 2) .scopedRules p =
        some (.returned p) ∨
      ∃ q, Routed p q ∧ run (compiled inet state member interfaces uid options) (depth + 2)
        .scopedRules p = some (.accepted q) := by
  rw [run_scopedRules]
  split
  · exact Or.inr ⟨_, Or.inr ⟨.vpn, rfl⟩, rfl⟩
  split
  · exact Or.inr ⟨_, Or.inr ⟨.direct, rfl⟩, rfl⟩
  · exact Or.inl rfl

theorem selectedRules_routed : ∃ q, Routed p q ∧
    run (compiled inet state member interfaces uid options) (depth + 3) .selectedRules p =
      some (.accepted q) :=
  ⟨_, Or.inr ⟨_, rfl⟩, run_succ.trans runRules_scoped_vpn⟩

theorem localRules_routed : ∀ rule ∈ localRules inet state, AcceptsOrPasses
    (run (compiled inet state member interfaces uid options) (depth + 3)) (Routed p) p
    (Rule.compile inet member rule) := by
  intro rule hr
  unfold localRules at hr
  split at hr
  · rcases List.mem_append.1 hr with hr | hr
    · obtain ⟨device, -, rfl⟩ := List.mem_map.1 hr
      refine acceptsOrPasses_goto rfl ?_
      cases device.route with
      | direct => exact ⟨_, Or.inr ⟨.direct, rfl⟩, run_markDirect⟩
      | vpn => exact selectedRules_routed
    · split at hr
      · obtain rfl := List.mem_singleton.1 hr
        exact acceptsOrPasses_jump rfl scopedRules_routed
      · cases hr
  · cases hr

/-- Without the lease bit `classify` adds the bit of one route, or none. -/
theorem run_classify_routed (hlease : p.mark &&& leaseMark = 0) : ∃ q, Routed p q ∧
    run (compiled inet state member interfaces uid options) (depth + 4) .classify p =
      some (.accepted q) := by
  have hlast : ∃ q, Routed p q ∧ runRules
      (run (compiled inet state member interfaces uid options) (depth + 3))
      [Rule.compile inet member { verdict := .jump .markVpn }] p = some (.accepted q) :=
    ⟨_, Or.inr ⟨.vpn, rfl⟩, runRules_jump_accepted rfl rfl run_markVpn⟩
  have hbypass : ∀ f, AcceptsOrPasses
      (run (compiled inet state member interfaces uid options) (depth + 3)) (Routed p) p
      (Rule.compile inet member { conditions := [.daddr (.bypass f)], verdict := .accept }) :=
    fun _ => acceptsOrPasses_accept rfl (Or.inl rfl)
  rw [run_succ]
  simp only [compiled, chains, List.map_append, List.map_cons, List.map_nil, List.cons_append,
    List.nil_append]
  rw [runRules_skip (by simp [Rule.compile, Condition.holds, hlease])]
  have hrules := @runRules_append_accepts _ _
    (run (compiled inet state member interfaces uid options) (depth + 3))
    (Rule.compile inet member { conditions := [.daddr (.bypass .v4)], verdict := .accept } ::
      Rule.compile inet member { conditions := [.daddr (.bypass .v6)], verdict := .accept } ::
      (localRules inet state).map (Rule.compile inet member)) _ p (Routed p) ?_ hlast
  · exact hrules
  · simp only [List.forall_mem_cons, List.forall_mem_map]
    exact ⟨hbypass .v4, hbypass .v6, localRules_routed⟩

theorem run_classify_leased (hlease : p.mark &&& leaseMark ≠ 0) :
    run (compiled inet state member interfaces uid options) (depth + 1) .classify p =
      some (.accepted { p with mark := p.mark &&& 0xb7ffffff ||| directMark }) := by
  rw [run_succ]
  exact runRules_accept (by simpa [Rule.compile, Condition.holds] using hlease) rfl

/-- The table runs the chains of the state. -/
theorem tableRun_eq (hn : nftConfig inet state options = .ok table) : ∃ interfaces uid,
    ∀ chain p, table.run inet learned chain p =
      run (compiled inet state (table.member inet learned) interfaces uid options) 16 chain p := by
  obtain ⟨uid, -, -, -, -, htable⟩ := nftConfig_eq_ok.1 hn
  refine ⟨options.interfaces.eraseDups, uid.toNat, fun chain p => ?_⟩
  subst htable
  rfl

/-- What `guard_egress` lets through with the VPN bit goes into the tunnel. -/
theorem passes_guardEgress (hn : nftConfig inet state options = .ok table)
    (hm : p.mark &&& mark ≠ 0) (h : table.passes inet learned .guardEgress p = some q) :
    p.oif = tunName := by
  by_contra hoif
  obtain ⟨interfaces, uid, hrun⟩ := @tableRun_eq _ _ _ _ learned hn
  have hdrop : runRules (run (compiled inet state (table.member inet learned) interfaces uid
      options) 15) [Rule.compile inet (table.member inet learned)
        { conditions := [.markAny mark, .oifnameNot tunName], verdict := .drop }] p =
      some .dropped :=
    runRules_drop (by simpa [Rule.compile, Condition.holds, hoif] using hm) rfl
  have hout : table.run inet learned .guardEgress p = some .dropped := by
    rw [hrun, run_succ]
    simp only [compiled, chains, List.map_append]
    cases options.bootstrap with
    | false => exact hdrop
    | true =>
      simp only [if_true, List.map_cons, List.map_nil, List.cons_append, List.nil_append]
      cases ha : (Rule.compile inet (table.member inet learned)
          { conditions := [.markIs 0x50000000 0x40000000], verdict := .drop }).applies p with
      | true => exact runRules_drop ha rfl
      | false => exact (runRules_skip ha).trans hdrop
  rw [Table.passes, hout] at h
  cases h

end Nft

namespace Handoff
open Check Nft

variable {inet : Inet} {value : Journal} {pairs : Pairing.Record} {now age : ℤ} {boot : Text}
  {device : Field Text} {state : State} {options : Options} {learned : Learned}
  {handoff : Handoff.Table} {table : Nft.Table} {f : Frame} {m keep bits w : BitVec 32}

/-- A bit that the mask clears and the constant leaves out is clear. -/
theorem setMark_clear (hk : keep &&& w = 0) (hb : bits &&& w = 0) :
    (m &&& keep ||| bits) &&& w = 0 := by
  rw [BitVec.and_or_distrib_right, BitVec.and_assoc, hk, hb]
  simp

/-- A bit of the constant is set. -/
theorem setMark_set (hb : bits &&& w ≠ 0) : (m ||| bits) &&& w ≠ 0 := by
  rw [BitVec.and_or_distrib_right]
  exact fun h => hb (BitVec.or_eq_zero_iff.1 h).2

theorem and_eq_zero (hw : w &&& bits = bits) (h : m &&& w = 0) : m &&& bits = 0 := by
  rw [← hw, ← BitVec.and_assoc, h]
  simp

/-- What a frame has become after ingress and `classify`. -/
structure Classified (inet : Inet) (value : Journal) (pairs : Pairing.Record) (now : ℤ)
    (device : Field Text) (boot : Text) (age : ℤ) (f g : Frame) (q : Packet) : Prop where
  /-- after ingress the lease bit says that the frame is leased, whatever it came with -/
  lease : g.mark &&& 0x08000000 ≠ 0 ↔ Leased inet value pairs now device boot age f
  /-- a leased frame leaves as direct, without the VPN and the lease bit -/
  direct : Leased inet value pairs now device boot age f →
    q.mark &&& 0x20000000 ≠ 0 ∧ q.mark &&& 0x40000000 = 0 ∧ q.mark &&& 0x08000000 = 0
  /-- a frame that came without them never leaves with both routing bits -/
  exclusive : f.mark &&& 0x60000000 = 0 →
    ¬ (q.mark &&& 0x40000000 ≠ 0 ∧ q.mark &&& 0x20000000 ≠ 0)

theorem classified_leased {g : Frame} {q : Packet}
    (hleased : Leased inet value pairs now device boot age f)
    (hg : g.mark = f.mark &&& 0xf7ffffff ||| leaseMark)
    (hq : q.mark = g.mark &&& 0xb7ffffff ||| directMark) :
    Classified inet value pairs now device boot age f g q := by
  have hvpn : q.mark &&& 0x40000000 = 0 := by
    rw [hq]
    exact setMark_clear (by decide) (by decide)
  refine ⟨⟨fun _ => hleased, fun _ => ?_⟩, fun _ => ⟨?_, hvpn, ?_⟩, fun _ h => h.1 hvpn⟩
  · rw [hg]
    exact setMark_set (by decide)
  · rw [hq]
    exact setMark_set (by decide)
  · rw [hq]
    exact setMark_clear (by decide) (by decide)

theorem classified_routed {g : Frame} {q : Packet}
    (hfree : ¬ Leased inet value pairs now device boot age f)
    (hg : g.mark = f.mark &&& 0xf7ffffff) (hq : Routed g.toPacket q) :
    Classified inet value pairs now device boot age f g q := by
  have hlease : g.mark &&& 0x08000000 = 0 := by
    rw [hg, BitVec.and_assoc]
    simp
  refine ⟨⟨fun h => absurd hlease h, fun h => absurd h hfree⟩, fun h => absurd h hfree,
    fun hf ⟨hvpn, hdirect⟩ => ?_⟩
  have hfresh : g.mark &&& 0x60000000 = 0 := by
    rw [hg, BitVec.and_assoc]
    exact and_eq_zero (by decide) hf
  rcases hq with rfl | ⟨r, rfl⟩
  · exact hvpn (and_eq_zero (by decide) hfresh)
  · have hgiven : ∀ bits : BitVec 32, 0x60000000 &&& bits = bits →
        (g.toPacket.withMark (routeMark r)).mark &&& bits = routeMark r &&& bits := by
      intro bits hb
      rw [Packet.withMark, BitVec.and_or_distrib_right, and_eq_zero hb hfresh]
      simp
    rw [hgiven _ (by decide)] at hvpn hdirect
    have hr := (routeMark_vpn r).1 hvpn
    rw [(routeMark_direct r).1 hdirect] at hr
    cases hr

/-- **Marks of a packet.** Ingress and `classify` treat every frame as they should, and the guard
lets the VPN bit out through the tunnel only. -/
theorem packet_marks (hl : nft inet value pairs now device boot = .ok handoff)
    (hn : nftConfig inet state options = .ok table) (f : Frame) :
    (∃ g q, handoff.passes inet age f = some g ∧
      table.run inet learned .classify g.toPacket = some (.accepted q) ∧
      Classified inet value pairs now device boot age f g q) ∧
    ∀ p q, p.mark &&& 0x40000000 ≠ 0 → table.passes inet learned .guardEgress p = some q →
      p.oif = "foxhole0".toList := by
  refine ⟨?_, fun p q hm hq => passes_guardEgress hn hm hq⟩
  obtain ⟨interfaces, uid, hrun⟩ := @tableRun_eq _ _ _ _ learned hn
  rcases @passes_ingress _ _ _ _ age _ _ f _ hl with ⟨hleased, hg⟩ | ⟨hfree, hg⟩
  · have hbit : (f.mark &&& 0xf7ffffff ||| leaseMark) &&& leaseMark ≠ 0 := setMark_set (by decide)
    have hclassify := @run_classify_leased inet state options (table.member inet learned)
      { f.toPacket with mark := f.mark &&& 0xf7ffffff ||| leaseMark } interfaces uid 15 hbit
    exact ⟨_, _, hg, (hrun _ _).trans hclassify, classified_leased hleased rfl rfl⟩
  · have hbit : (f.mark &&& 0xf7ffffff) &&& leaseMark = 0 := by
      rw [BitVec.and_assoc]
      simp [leaseMark]
    obtain ⟨q, hq, hclassify⟩ := run_classify_routed (p := { f.toPacket with
      mark := f.mark &&& 0xf7ffffff }) hbit
    exact ⟨_, q, hg, (hrun _ _).trans hclassify, classified_routed hfree rfl hq⟩

theorem isIPv4_nine : [9, 9, 9, 9].length = 4 ∨ [9, 9, 9, 9].length = 16 := by decide

theorem octets_nine : ∀ b ∈ [9, 9, 9, 9], b < 256 := by decide

/-- A packet of the phone to its lease's target, that comes with every mark set. -/
def leasedFrame : Frame where
  iif := "br-lan".toList
  oif := []
  mark := 0x68000000
  mac := "02:00:00:00:00:01".toList
  source := ⟨[192, 168, 1, 2], by decide, by decide⟩
  destination := ⟨[9, 9, 9, 9], isIPv4_nine, octets_nine⟩
  uid := none
  toDns := false
  same_family := by decide
  transport := "tcp".toList
  port := 443
  toDns_eq := by decide

theorem leasedFrame_direct : ∃ handoff g q,
    nft decimalInet (oneLease 1 (grantedLease claimA [] 1000 60000)) Rpc.phonePairs 1000
      (.value "br-lan".toList) bootText = .ok handoff ∧
    handoff.passes decimalInet 59999 leasedFrame = some g ∧
    lanTable.run decimalInet (lanLearned []) .classify g.toPacket = some (.accepted q) ∧
    q.mark &&& 0x20000000 ≠ 0 ∧ q.mark &&& 0x40000000 = 0 := by
  obtain ⟨handoff, hl⟩ : Succeeds (nft decimalInet (oneLease 1 (grantedLease claimA [] 1000 60000))
      Rpc.phonePairs 1000 (.value "br-lan".toList) bootText) := by decide
  obtain ⟨⟨g, q, hg, hq, hc⟩, -⟩ :=
    @packet_marks _ _ _ _ 59999 _ _ _ _ (lanLearned []) _ _ hl lanTable_eq leasedFrame
  have hleased : Leased decimalInet (oneLease 1 (grantedLease claimA [] 1000 60000)) Rpc.phonePairs
      1000 (.value "br-lan".toList) bootText 59999 leasedFrame :=
    ⟨rfl, _, List.mem_cons_self, by decide, by decide, by decide, _, List.mem_cons_self,
      by decide, rfl, rfl⟩
  exact ⟨handoff, g, q, hl, hg, hq, (hc.direct hleased).1, (hc.direct hleased).2.1⟩

end Handoff
end Foxhole
