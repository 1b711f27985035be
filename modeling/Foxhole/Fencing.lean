import Foxhole.Handoff
import Foxhole.Listeners

/-! A replaced or released claim stays out, as long as what keeps it out lasts. -/
namespace Foxhole.Handoff
open Check Text Address Trace

variable {inet : Inet} {value value' : Journal} {pairs : Pairing.Record} {paired : Pairing.Session}
  {phone : Option Mobile.Phone} {args : Args} {now now' leaseMs t : ℤ} {boot id claim : Text}
  {live : List Lease} {retired : List Retired} {lease : Lease}

/-- The leases a request finds. -/
def Journal.running (value : Journal) (pairs : Pairing.Record) (now : ℤ) (boot : Text) :
    List Lease :=
  value.leases.filter (·.live pairs now boot)

/-- The tombstones a request finds. -/
def Journal.standing (value : Journal) (pairs : Pairing.Record) (now : ℤ) (boot : Text) :
    List Retired :=
  value.retired.filter (·.live pairs now boot)

/-- What an accepted request has passed. -/
structure Passed (inet : Inet) (value : Journal) (pairs : Pairing.Record) (paired : Pairing.Session)
    (args : Args) (now : ℤ) (boot : Text) (value' : Journal) : Prop where
  window : inWindow args.requestUptimeMs now = true
  session : Pairing.sessionCurrent pairs paired = true
  nodup : (value.leases.map Lease.pairId).Nodup
  notFenced : ¬ fenced paired args (value.running pairs now boot) (value.standing pairs now boot)
  changed : ∃ phone, change inet paired phone args now boot (value.running pairs now boot)
    (value.standing pairs now boot) = .ok (value'.leases, value'.retired)

theorem journal_ok (h : journal inet value = .ok value') :
    value' = value ∧ (value.leases.map Lease.pairId).Nodup := by
  simp only [journal, bind_eq_ok, require_eq_ok, pure_eq_ok] at h
  obtain ⟨-, -, -, -, -, -, -, -, -, hn, rfl⟩ := h
  exact ⟨rfl, hn⟩

theorem request_ok (h : request inet value pairs paired phone args now boot = .ok value') :
    Passed inet value pairs paired args now boot value' := by
  simp only [request, bind_eq_ok, require_eq_ok] at h
  obtain ⟨-, -, -, hw, record, hr, live, hl, h⟩ := h
  obtain ⟨rfl, hn⟩ := journal_ok hr
  simp only [active, bind_eq_ok, pure_eq_ok] at hl
  obtain ⟨-, -, record', hr', rfl⟩ := hl
  obtain ⟨rfl, -⟩ := journal_ok hr'
  cases phone with
  | none => simp at h
  | some phone =>
    simp only [bind_eq_ok, require_eq_ok] at h
    obtain ⟨-, hs, -, hf, ⟨leases, retired⟩, hc, hj⟩ := h
    obtain ⟨rfl, -⟩ := journal_ok hj
    exact ⟨hw, hs.1, hn, hf, phone, hc⟩

theorem inWindow_iff {requested : Field ℤ} : inWindow requested now = true ↔
    ∃ at', requested = .value at' ∧ 0 ≤ at' ∧ at' ≤ now + 1000 ∧ now - at' ≤ 5000 := by
  cases requested <;> simp [inWindow, and_assoc]

/-- The pair has at most one lease, so the one that is live is found. -/
theorem findLease_eq (hn : (value.leases.map Lease.pairId).Nodup)
    (hl : lease ∈ value.running pairs now boot) :
    findLease (value.running pairs now boot) lease.pairId = some lease := by
  have hmem : lease ∈ (value.running pairs now boot).filter (·.pairId = lease.pairId) :=
    List.mem_filter.2 ⟨hl, by simp⟩
  obtain ⟨other, ho⟩ : ∃ other, findLease (value.running pairs now boot) lease.pairId =
    some other :=
    ⟨_, List.getLast?_eq_some_getLast (List.ne_nil_of_mem hmem)⟩
  have hother := List.mem_filter.1 (List.mem_of_getLast? ho)
  have hid : other.pairId = lease.pairId := by simpa using hother.2
  have heq : other = lease :=
    List.inj_on_of_nodup_map hn (List.mem_of_mem_filter hother.1) (List.mem_of_mem_filter hl) hid
  rw [ho, heq]

theorem findLease_mem (h : findLease live id = some lease) : lease ∈ live ∧ lease.pairId = id := by
  have hmem := List.mem_filter.1 (List.mem_of_getLast? h)
  exact ⟨hmem.1, by simpa using hmem.2⟩

/-! What keeps a claim out. -/

/-- The claim of a pair is kept out beyond `t`: by the lease that replaced it, or by a tombstone. -/
inductive Shielded (pairs : Pairing.Record) (boot id : Text) (value : Journal) (now : ℤ)
    (claim : Text) (t : ℤ) : Prop
  | lease (l : Lease) : l ∈ value.leases → l.pairId = id → claim ∈ l.previousClaims →
      l.bootId = boot → l.updatedUptimeMs ≤ now →
      Pairing.sessionCurrent pairs ⟨l.pairId, l.verifier⟩ = true → t < l.expiresUptimeMs →
      Shielded pairs boot id value now claim t
  | retired (e : Retired) : e ∈ value.retired → e.pairId = id → e.claimId = claim →
      e.bootId = boot → Pairing.sessionCurrent pairs ⟨e.pairId, e.verifier⟩ = true →
      t < e.expiresUptimeMs → Shielded pairs boot id value now claim t

theorem Shielded.weaken {t' : ℤ} (h : Shielded pairs boot id value now claim t) (ht : t' ≤ t) :
    Shielded pairs boot id value now claim t' := by
  cases h with
  | lease l hl hp hc hb hu hs he => exact .lease l hl hp hc hb hu hs (lt_of_le_of_lt ht he)
  | retired e hm hp hc hb hs he => exact .retired e hm hp hc hb hs (lt_of_le_of_lt ht he)

/-! What a change leaves behind. -/

theorem release_ok {found : Option Lease} {result : List Lease × List Retired}
    (h : release paired args now boot found live retired = .ok result) :
    (∀ l ∈ found, l.claimId = args.claim) ∧
      result = (live.filter (·.pairId ≠ paired.id),
        retired ++ (found.elim [] Lease.claims).map (tombstone paired now boot)) := by
  simp only [release, bind_eq_ok, require_eq_ok, pure_eq_ok] at h
  obtain ⟨-, hc, -, -, -, -, rfl⟩ := h
  exact ⟨hc, rfl⟩

theorem take_ok {found : Option Lease} {ph : Mobile.Phone} {leases : List Lease}
    (h : take inet paired ph args now boot found live leaseMs = .ok leases) :
    ∃ l : Lease, leases = live.filter (·.pairId ≠ paired.id) ++ [l] ∧ l.pairId = paired.id ∧
      l.verifier = paired.verifier ∧ l.claimId = args.claim ∧ l.bootId = boot ∧
      l.previousClaims = replaced found args.claim ∧ l.updatedUptimeMs = now ∧
      l.expiresUptimeMs = now + leaseMs := by
  simp only [take, bind_eq_ok, pure_eq_ok] at h
  obtain ⟨-, -, selected, -, -, -, -, -, rfl⟩ := h
  exact ⟨_, rfl, rfl, rfl, rfl, rfl, rfl, rfl, rfl⟩

/-- An accepted `router_vpn` request. -/
theorem Passed.released (hp : Passed inet value pairs paired args now boot value')
    (hmode : args.mode = .value .routerVpn) :
    (∀ l ∈ findLease (value.running pairs now boot) paired.id, l.claimId = args.claim) ∧
      value'.leases = (value.running pairs now boot).filter (·.pairId ≠ paired.id) ∧
      value'.retired = value.standing pairs now boot ++
        ((findLease (value.running pairs now boot) paired.id).elim [] Lease.claims).map
          (tombstone paired now boot) := by
  obtain ⟨ph, hc⟩ := hp.changed
  simp only [change, hmode] at hc
  obtain ⟨hclaim, heq⟩ := release_ok hc
  simp only [Prod.mk.injEq] at heq
  exact ⟨hclaim, heq.1, heq.2⟩

/-- An accepted `phone_vpn` request. -/
theorem Passed.taken (hp : Passed inet value pairs paired args now boot value')
    (hmode : args.mode = .value .phoneVpn) :
    ∃ (l : Lease) (leaseMs : ℤ), args.leaseMs = .value leaseMs ∧
      value'.leases = (value.running pairs now boot).filter (·.pairId ≠ paired.id) ++ [l] ∧
      value'.retired = value.standing pairs now boot ∧ l.pairId = paired.id ∧
      l.verifier = paired.verifier ∧ l.claimId = args.claim ∧ l.bootId = boot ∧
      l.previousClaims = replaced (findLease (value.running pairs now boot) paired.id) args.claim ∧
      l.updatedUptimeMs = now ∧ l.expiresUptimeMs = now + leaseMs := by
  obtain ⟨ph, hc⟩ := hp.changed
  cases hms : args.leaseMs with
  | value leaseMs =>
    simp only [change, hmode, hms, map_eq_ok, Prod.mk.injEq] at hc
    obtain ⟨leases, htake, rfl, hretired⟩ := hc
    obtain ⟨l, hleases, hrest⟩ := take_ok htake
    exact ⟨l, leaseMs, rfl, hleases, hretired.symm, hrest⟩
  | _ =>
    simp only [change, hmode, hms] at hc
    cases hc

theorem Passed.mode (hp : Passed inet value pairs paired args now boot value') :
    args.mode = .value .phoneVpn ∨ args.mode = .value .routerVpn := by
  obtain ⟨ph, hc⟩ := hp.changed
  unfold change at hc
  split at hc
  · exact Or.inr ‹_›
  · exact Or.inl ‹_›
  · cases hc

/-- Every accepted request keeps the running leases of other pairs and all standing tombstones. -/
theorem Passed.keeps (hp : Passed inet value pairs paired args now boot value') :
    (∀ l ∈ value.running pairs now boot, l.pairId ≠ paired.id → l ∈ value'.leases) ∧
      ∀ e ∈ value.standing pairs now boot, e ∈ value'.retired := by
  rcases hp.mode with hmode | hmode
  · obtain ⟨l, -, -, hleases, hretired, -⟩ := hp.taken hmode
    rw [hleases, hretired]
    exact ⟨fun l hl hne => List.mem_append_left _ (List.mem_filter.2 ⟨hl, by simpa using hne⟩),
      fun e he => he⟩
  · obtain ⟨-, hleases, hretired⟩ := hp.released hmode
    rw [hleases, hretired]
    exact ⟨fun l hl hne => List.mem_filter.2 ⟨hl, by simpa using hne⟩,
      fun e he => List.mem_append_left _ he⟩

theorem shielded_running {l : Lease} (hl : l ∈ value.running pairs now boot)
    (hm : l ∈ value'.leases)
    (hp : l.pairId = id) (hc : claim ∈ l.previousClaims) (ht : t < l.expiresUptimeMs) :
    Shielded pairs boot id value' now claim t := by
  have hlive := (List.mem_filter.1 hl).2
  simp only [Lease.live, Bool.and_eq_true, decide_eq_true_eq] at hlive
  exact .lease l hm hp hc hlive.1.1.1 hlive.1.1.2 hlive.2 ht

theorem shielded_standing {e : Retired} (he : e ∈ value.standing pairs now boot)
    (hm : e ∈ value'.retired) (hp : e.pairId = id) (hc : e.claimId = claim)
    (ht : t < e.expiresUptimeMs) : Shielded pairs boot id value' now claim t := by
  have hlive := (List.mem_filter.1 he).2
  simp only [Retired.live, Bool.and_eq_true, decide_eq_true_eq] at hlive
  exact .retired e hm hp hc hlive.1.1 hlive.2 ht

/-- By the time of the next request a shield is over, or its lease still runs, or its tombstone
still stands. -/
theorem Shielded.later (h : Shielded pairs boot id value now claim t) (hnow : now ≤ now') :
    t < now' ∨
    (∃ l ∈ value.running pairs now' boot, l.pairId = id ∧ claim ∈ l.previousClaims ∧
      t < l.expiresUptimeMs) ∨
    ∃ e ∈ value.standing pairs now' boot, e.pairId = id ∧ e.claimId = claim ∧
      t < e.expiresUptimeMs := by
  cases h with
  | lease l hl hp hc hb hu hs he =>
    by_cases hlive : now' < l.expiresUptimeMs
    · refine Or.inr (Or.inl ⟨l, List.mem_filter.2 ⟨hl, ?_⟩, hp, hc, he⟩)
      simp only [Lease.live, Bool.and_eq_true, decide_eq_true_eq]
      exact ⟨⟨⟨hb, by omega⟩, hlive⟩, hs⟩
    · exact Or.inl (by omega)
  | retired e hm hp hc hb hs he =>
    by_cases hlive : now' < e.expiresUptimeMs
    · refine Or.inr (Or.inr ⟨e, List.mem_filter.2 ⟨hm, ?_⟩, hp, hc, he⟩)
      simp only [Retired.live, Bool.and_eq_true, decide_eq_true_eq]
      exact ⟨⟨hb, hlive⟩, hs⟩
    · exact Or.inl (by omega)

/-- A request that takes a shielded claim only passes when the shield is over. -/
theorem Shielded.refuse (h : Shielded pairs boot id value now claim t) (hnow : now ≤ now')
    (hp : Passed inet value pairs paired args now' boot value') (hid : paired.id = id)
    (hmode : args.mode = .value .phoneVpn) (hclaim : args.claim = claim) : t < now' := by
  rcases h.later hnow with ht | ⟨l, hl, hpair, hc, -⟩ | ⟨e, he, hpair, hc, -⟩
  · exact ht
  · have hfound := findLease_eq hp.nodup hl
    rw [hpair, ← hid] at hfound
    exact absurd (Or.inr ⟨l, hfound, hclaim ▸ hc⟩) hp.notFenced
  · exact absurd (Or.inl ⟨hmode, e, he, hpair.trans hid.symm, hc.trans hclaim.symm⟩) hp.notFenced

/-- A request of another pair keeps every shield that is not over. -/
theorem Shielded.other (h : Shielded pairs boot id value now claim t) (hnow : now ≤ now')
    (hp : Passed inet value pairs paired args now' boot value') (hid : paired.id ≠ id) :
    t < now' ∨ Shielded pairs boot id value' now' claim t := by
  obtain ⟨hleases, hretired⟩ := hp.keeps
  rcases h.later hnow with ht | ⟨l, hl, hpair, hc, ht⟩ | ⟨e, he, hpair, hc, ht⟩
  · exact Or.inl ht
  · have hne : l.pairId ≠ paired.id := fun heq => hid (heq.symm.trans hpair)
    exact Or.inr (shielded_running hl (hleases l hl hne) hpair hc ht)
  · exact Or.inr (shielded_standing he (hretired e he) hpair hc ht)

/-- A release retires every claim of the lease it finds. -/
theorem Passed.retires (hp : Passed inet value pairs paired args now boot value')
    (hmode : args.mode = .value .routerVpn)
    (hfound : findLease (value.running pairs now boot) paired.id = some lease)
    (hc : claim ∈ lease.claims) (ht : t < now + maxLease) :
    Shielded pairs boot paired.id value' now claim t := by
  obtain ⟨-, -, hretired⟩ := hp.released hmode
  refine .retired (tombstone paired now boot claim) ?_ rfl rfl rfl hp.session ht
  rw [hretired, hfound]
  exact List.mem_append_right _ (List.mem_map_of_mem hc)

theorem mem_claims : claim ∈ lease.claims ↔ claim ∈ lease.previousClaims ∨
    claim = lease.claimId := by
  simp [Lease.claims]

/-- A release of the pair keeps every shield that is not over. -/
theorem Shielded.release (h : Shielded pairs boot paired.id value now claim t) (hnow : now ≤ now')
    (hp : Passed inet value pairs paired args now' boot value')
    (hmode : args.mode = .value .routerVpn) (ht : t ≤ now' + 5000) :
    t < now' ∨ Shielded pairs boot paired.id value' now' claim t := by
  rcases h.later hnow with hover | ⟨l, hl, hpair, hc, -⟩ | ⟨e, he, hpair, hc, hexp⟩
  · exact Or.inl hover
  · have hfound := findLease_eq hp.nodup hl
    rw [hpair] at hfound
    refine Or.inr (hp.retires hmode hfound (mem_claims.2 (Or.inl hc)) ?_)
    unfold maxLease
    omega
  · exact Or.inr (shielded_standing he (hp.keeps.2 e he) hpair hc hexp)

/-- A claim that a longer lease replaces is shielded by it. -/
theorem Passed.replaces (hp : Passed inet value pairs paired args now boot value')
    (hmode : args.mode = .value .phoneVpn)
    (hfound : findLease (value.running pairs now boot) paired.id = some lease)
    (hc : claim ∈ lease.claims) (hne : claim ≠ args.claim)
    (hlong : ∀ ms, args.leaseMs = .value ms → 5000 < ms) :
    Shielded pairs boot paired.id value' now claim (now + 5000) := by
  obtain ⟨l, leaseMs, hms, hleases, -, hpair, hver, -, hboot, hprev, hupd, hexp⟩ := hp.taken hmode
  have hmem : claim ∈ l.previousClaims := by
    rw [hprev, hfound]
    simp only [replaced, Option.elim_some]
    split
    · rename_i heq
      rcases mem_claims.1 hc with hc | hc
      · exact hc
      · exact absurd (hc.trans heq) hne
    · exact hc
  refine .lease l ?_ hpair hmem hboot hupd.le ?_ ?_
  · rw [hleases]
    exact List.mem_append_right _ List.mem_cons_self
  · rw [hpair, hver]
    exact hp.session
  · have := hlong leaseMs hms
    omega

/-! The run of one journal, with the claims a pair has had and the fences it has raised. -/

structure Call where
  paired : Pairing.Session
  phone : Option Mobile.Phone
  args : Args
  now : ℤ

structure World where
  journal : Journal
  now : ℤ
  /-- the claims the pair has had -/
  claims : List Text
  /-- the claims that were replaced or released, each with the time of that acceptance -/
  fences : List (Text × ℤ)

/-- The world after an accepted request, as the pair `id` sees it. -/
def World.accept (id : Text) (w : World) (c : Call) (journal : Journal) : World :=
  if c.paired.id = id then
    if c.args.mode = .value .phoneVpn then
      ⟨journal, c.now, c.args.claim :: w.claims,
        (w.claims.filter (· ≠ c.args.claim)).map (·, c.now) ++ w.fences⟩
    else ⟨journal, c.now, w.claims, (c.args.claim, c.now) :: w.fences⟩
  else ⟨journal, c.now, w.claims, w.fences⟩

/-- One accepted request of any pair; a rejected one leaves the journal as it is. -/
inductive Step (inet : Inet) (pairs : Pairing.Record) (boot id : Text) : World → Call → World → Prop
  | accepted {w : World} {c : Call} {journal : Journal} : w.now ≤ c.now →
      request inet w.journal pairs c.paired c.phone c.args c.now boot = .ok journal →
      Step inet pairs boot id w c (w.accept id c journal)

/-- The claims of the pair that a journal knows. -/
def Journal.claims (value : Journal) (id : Text) : List Text :=
  (value.leases.filter (·.pairId = id)).flatMap Lease.claims ++
    (value.retired.filter (·.pairId = id)).map Retired.claimId

/-- A journal at the start of a run. -/
def World.start (value : Journal) (now : ℤ) (id : Text) : World :=
  ⟨value, now, value.claims id, []⟩

/-- A tombstone of the claim stands for more than 5 s. -/
def Tombstone (pairs : Pairing.Record) (boot id : Text) (value : Journal) (now : ℤ) (claim : Text) :
    Prop :=
  ∃ e ∈ value.standing pairs now boot, e.pairId = id ∧ e.claimId = claim ∧
    now + 5000 < e.expiresUptimeMs

/-- Every claim that a request of the pair replaces or releases is kept out for more than 5 s. -/
structure Protects (pairs : Pairing.Record) (boot id : Text) (w : World) (c : Call) : Prop where
  taken : c.paired.id = id → c.args.mode = .value .phoneVpn → ∀ claim ∈ w.claims,
    claim ≠ c.args.claim →
    (∃ l ∈ findLease (w.journal.running pairs c.now boot) id, claim ∈ l.claims ∧
      ∀ ms, c.args.leaseMs = .value ms → 5000 < ms) ∨
    Tombstone pairs boot id w.journal c.now claim
  released : c.paired.id = id → c.args.mode = .value .routerVpn →
    findLease (w.journal.running pairs c.now boot) id ≠ none ∨
    Tombstone pairs boot id w.journal c.now c.args.claim

/-- The history knows the journal, and every fence that may still be asked for is shielded. -/
structure Guards (pairs : Pairing.Record) (boot id : Text) (w : World) : Prop where
  known : ∀ claim ∈ w.journal.claims id, claim ∈ w.claims
  past : ∀ f ∈ w.fences, f.1 ∈ w.claims ∧ f.2 ≤ w.now
  shielded : ∀ f ∈ w.fences, f.2 + 5000 < w.now ∨
    Shielded pairs boot id w.journal w.now f.1 (f.2 + 5000)

variable {w w' : World} {c : Call} {calls : List Call} {journal : Journal}

theorem mem_journal_claims : claim ∈ value.claims id ↔
    (∃ l ∈ value.leases, l.pairId = id ∧ claim ∈ l.claims) ∨
      ∃ e ∈ value.retired, e.pairId = id ∧ e.claimId = claim := by
  simp [Journal.claims, and_assoc]

theorem running_claims (hl : lease ∈ value.running pairs now boot) (hp : lease.pairId = id)
    (hc : claim ∈ lease.claims) : claim ∈ value.claims id :=
  mem_journal_claims.2 (Or.inl ⟨lease, List.mem_of_mem_filter hl, hp, hc⟩)

theorem found_claims (h : findLease (value.running pairs now boot) id = some lease)
    (hc : claim ∈ lease.claims) : claim ∈ value.claims id :=
  running_claims (findLease_mem h).1 (findLease_mem h).2 hc

/-- A request brings no claim into the journal but its own. -/
theorem Passed.claims (hp : Passed inet value pairs paired args now boot value')
    (h : claim ∈ value'.claims id) :
    claim ∈ value.claims id ∨ (paired.id = id ∧ claim = args.claim ∧
      args.mode = .value .phoneVpn) := by
  have hstand : ∀ e ∈ value.standing pairs now boot, e.pairId = id → e.claimId ∈ value.claims id :=
    fun e he hid => mem_journal_claims.2 (Or.inr ⟨e, List.mem_of_mem_filter he, hid, rfl⟩)
  rcases hp.mode with hmode | hmode
  · obtain ⟨l, ms, -, hleases, hretired, hpair, -, hclaim, -, hprev, -⟩ := hp.taken hmode
    rcases mem_journal_claims.1 h with ⟨k, hk, hid, hc⟩ | ⟨e, he, hid, rfl⟩
    · rw [hleases] at hk
      rcases List.mem_append.1 hk with hk | hk
      · exact Or.inl (running_claims (List.mem_of_mem_filter hk) hid hc)
      · obtain rfl := List.mem_singleton.1 hk
        have hpid : paired.id = id := hpair.symm.trans hid
        rcases mem_claims.1 hc with hc | hc
        · rw [hprev] at hc
          unfold replaced at hc
          cases hfound : findLease (value.running pairs now boot) paired.id with
          | none => simp [hfound] at hc
          | some old =>
            simp only [hfound, Option.elim_some] at hc
            refine Or.inl (hpid ▸ found_claims hfound ?_)
            split at hc
            · exact mem_claims.2 (Or.inl hc)
            · exact hc
        · exact Or.inr ⟨hpid, hc.trans hclaim, hmode⟩
    · rw [hretired] at he
      exact Or.inl (hstand e he hid)
  · obtain ⟨-, hleases, hretired⟩ := hp.released hmode
    rcases mem_journal_claims.1 h with ⟨k, hk, hid, hc⟩ | ⟨e, he, hid, rfl⟩
    · rw [hleases] at hk
      exact Or.inl (running_claims (List.mem_of_mem_filter hk) hid hc)
    · rw [hretired] at he
      rcases List.mem_append.1 he with he | he
      · exact Or.inl (hstand e he hid)
      · obtain ⟨old, hold, rfl⟩ := List.mem_map.1 he
        have hpid : paired.id = id := hid
        cases hfound : findLease (value.running pairs now boot) paired.id with
        | none => simp [hfound] at hold
        | some l =>
          simp only [hfound, Option.elim_some] at hold
          exact Or.inl (hpid ▸ found_claims hfound hold)

/-! One lemma for each kind of request. -/

theorem guards_other (hg : Guards pairs boot id w) (hnow : w.now ≤ c.now)
    (hp : Passed inet w.journal pairs c.paired c.args c.now boot journal) (hid : c.paired.id ≠ id) :
    Guards pairs boot id ⟨journal, c.now, w.claims, w.fences⟩ where
  known := by
    intro claim hc
    rcases hp.claims hc with hc | ⟨hpid, -⟩
    · exact hg.known claim hc
    · exact absurd hpid hid
  past := fun f hf => ⟨(hg.past f hf).1, (hg.past f hf).2.trans hnow⟩
  shielded := by
    intro f hf
    rcases hg.shielded f hf with hover | hs
    · exact Or.inl (lt_of_lt_of_le hover hnow)
    · exact hs.other hnow hp hid

theorem guards_release (hg : Guards pairs boot c.paired.id w) (hnow : w.now ≤ c.now)
    (hp : Passed inet w.journal pairs c.paired c.args c.now boot journal)
    (hmode : c.args.mode = .value .routerVpn) (hprot : Protects pairs boot c.paired.id w c) :
    Guards pairs boot c.paired.id
      ⟨journal, c.now, w.claims, (c.args.claim, c.now) :: w.fences⟩ := by
  -- the released claim is one the pair has had, and is shielded from now on
  have hnew : c.args.claim ∈ w.claims ∧
      Shielded pairs boot c.paired.id journal c.now c.args.claim (c.now + 5000) := by
    cases hfound : findLease (w.journal.running pairs c.now boot) c.paired.id with
    | some l =>
      have hclaim := (hp.released hmode).1 l hfound
      have hmem : c.args.claim ∈ l.claims := mem_claims.2 (Or.inr hclaim.symm)
      refine ⟨hg.known _ (found_claims hfound hmem), hp.retires hmode hfound hmem ?_⟩
      unfold maxLease
      omega
    | none =>
      rcases hprot.released rfl hmode with h | ⟨e, he, hpair, hclaim, hexp⟩
      · exact absurd hfound h
      · refine ⟨hg.known _ (mem_journal_claims.2 (Or.inr ⟨e, List.mem_of_mem_filter he, hpair,
          hclaim⟩)), shielded_standing he (hp.keeps.2 e he) hpair hclaim hexp⟩
  refine ⟨fun claim hc => ?_, fun f hf => ?_, fun f hf => ?_⟩
  · rcases hp.claims hc with hc | ⟨-, -, hphone⟩
    · exact hg.known claim hc
    · rw [hmode] at hphone
      cases hphone
  · rcases List.mem_cons.1 hf with rfl | hf
    · exact ⟨hnew.1, le_rfl⟩
    · exact ⟨(hg.past f hf).1, (hg.past f hf).2.trans hnow⟩
  · rcases List.mem_cons.1 hf with rfl | hf
    · exact Or.inr hnew.2
    · rcases hg.shielded f hf with hover | hs
      · exact Or.inl (lt_of_lt_of_le hover hnow)
      · have hle : f.2 + 5000 ≤ c.now + 5000 := by
          have := (hg.past f hf).2
          omega
        exact hs.release hnow hp hmode hle

theorem guards_take (hg : Guards pairs boot c.paired.id w) (hnow : w.now ≤ c.now)
    (hp : Passed inet w.journal pairs c.paired c.args c.now boot journal)
    (hmode : c.args.mode = .value .phoneVpn) (hprot : Protects pairs boot c.paired.id w c) :
    Guards pairs boot c.paired.id ⟨journal, c.now, c.args.claim :: w.claims,
      (w.claims.filter (· ≠ c.args.claim)).map (·, c.now) ++ w.fences⟩ := by
  -- every other claim is shielded from now on
  have hnew : ∀ claim ∈ w.claims, claim ≠ c.args.claim →
      Shielded pairs boot c.paired.id journal c.now claim (c.now + 5000) := by
    intro claim hc hne
    rcases hprot.taken rfl hmode claim hc hne with
      ⟨l, hl, hmem, hlong⟩ | ⟨e, he, hpair, hclaim, hexp⟩
    · exact hp.replaces hmode hl hmem hne hlong
    · exact shielded_standing he (hp.keeps.2 e he) hpair hclaim hexp
  refine ⟨fun claim hc => ?_, fun f hf => ?_, fun f hf => ?_⟩
  · rcases hp.claims hc with hc | ⟨-, rfl, -⟩
    · exact List.mem_cons_of_mem _ (hg.known claim hc)
    · exact List.mem_cons_self
  · rcases List.mem_append.1 hf with hf | hf
    · obtain ⟨claim, hc, rfl⟩ := List.mem_map.1 hf
      exact ⟨List.mem_cons_of_mem _ (List.mem_of_mem_filter hc), le_rfl⟩
    · exact ⟨List.mem_cons_of_mem _ (hg.past f hf).1, (hg.past f hf).2.trans hnow⟩
  · rcases List.mem_append.1 hf with hf | hf
    · obtain ⟨claim, hc, rfl⟩ := List.mem_map.1 hf
      obtain ⟨hc, hne⟩ := List.mem_filter.1 hc
      exact Or.inr (hnew claim hc (by simpa using hne))
    · have hle : f.2 ≤ c.now := (hg.past f hf).2.trans hnow
      by_cases heq : f.1 = c.args.claim
      · -- the claim comes back, so its shield is over
        rcases hg.shielded f hf with hover | hs
        · exact Or.inl (lt_of_lt_of_le hover hnow)
        · exact Or.inl (hs.refuse hnow hp rfl hmode heq.symm)
      · exact Or.inr ((hnew f.1 (hg.past f hf).1 heq).weaken (by omega))

theorem guards_step (h : Step inet pairs boot id w c w') (hprot : Protects pairs boot id w c)
    (hg : Guards pairs boot id w) : Guards pairs boot id w' := by
  cases h with
  | accepted hnow hreq =>
    have hp := request_ok hreq
    unfold World.accept
    split
    · rename_i hid
      subst hid
      split
      · rename_i hmode
        exact guards_take hg hnow hp hmode hprot
      · rename_i hmode
        exact guards_release hg hnow hp (hp.mode.resolve_left hmode) hprot
    · rename_i hid
      exact guards_other hg hnow hp hid

theorem guards_start : Guards pairs boot id (World.start value now id) :=
  ⟨fun _ h => h, by simp [World.start], by simp [World.start]⟩

/-! Two claims of one phone. -/

def bootText : Text := List.replicate 36 '0'

def claimA : Text := List.replicate 32 'a'

def claimB : Text := List.replicate 32 'b'

def pairedPhone : Mobile.Phone where
  pairId := Rpc.phoneSession.id
  verifier := Rpc.phoneSession.verifier
  intent := List.replicate 64 '0'
  name := "phone".toList
  address := "192.168.1.2".toList
  mac := "02:00:00:00:00:01".toList
  lanDeviceId := some "device-000000000001".toList

/-- A request for a lease of `leaseMs`. -/
def leaseArgs (claim : Text) (requested leaseMs : ℤ) : Args where
  requestUptimeMs := .value requested
  claimId := .value claim
  mode := .value .phoneVpn
  address := "192.168.1.2".toList
  leaseMs := .value leaseMs
  upstreamTargets := [⟨"9.9.9.9".toList, .value 443, "tcp".toList⟩]

def leaseCall (claim : Text) (now requested leaseMs : ℤ) : Call :=
  ⟨Rpc.phoneSession, some pairedPhone, leaseArgs claim requested leaseMs, now⟩

/-- The lease that such a request gets. -/
def grantedLease (claim : Text) (previous : List Text) (now leaseMs : ℤ) : Lease where
  pairId := Rpc.phoneSession.id
  verifier := Rpc.phoneSession.verifier
  claimId := claim
  mac := "02:00:00:00:00:01".toList
  address := "192.168.1.2".toList
  targets := [⟨"9.9.9.9".toList, .value 443, "tcp".toList⟩]
  bootId := bootText
  previousClaims := previous
  updatedUptimeMs := now
  expiresUptimeMs := now + leaseMs

def oneLease (revision : ℤ) (lease : Lease) : Journal := ⟨revision, [lease], []⟩

/-- `phone_vpn` as one step of the run. -/
theorem lease_step {w : World} {claim : Text} {requested : ℤ} (hnow : w.now ≤ now)
    (h : request decimalInet w.journal Rpc.phonePairs Rpc.phoneSession (some pairedPhone)
      (leaseArgs claim requested leaseMs) now bootText = .ok journal) :
    Step decimalInet Rpc.phonePairs bootText Rpc.phoneSession.id w
      (leaseCall claim now requested leaseMs)
      ⟨journal, now, claim :: w.claims, (w.claims.filter (· ≠ claim)).map (·, now) ++ w.fences⟩ :=
  .accepted (c := leaseCall claim now requested leaseMs) hnow h

theorem lease_first : request decimalInet {} Rpc.phonePairs Rpc.phoneSession (some pairedPhone)
    (leaseArgs claimA 1000 60000) 1000 bootText =
    .ok (oneLease 1 (grantedLease claimA [] 1000 60000)) := by decide

theorem lease_second (leaseMs : ℤ) (h : leaseMs = 1000 ∨ leaseMs = 60000) :
    request decimalInet (oneLease 1 (grantedLease claimA [] 1000 60000)) Rpc.phonePairs
      Rpc.phoneSession (some pairedPhone) (leaseArgs claimB 2000 leaseMs) 2000 bootText =
    .ok (oneLease 2 (grantedLease claimB [claimA] 2000 leaseMs)) := by
  rcases h with rfl | rfl <;> decide

/-- The pair after its two requests. -/
def replacedWorld (leaseMs : ℤ) : World :=
  ⟨oneLease 2 (grantedLease claimB [claimA] 2000 leaseMs), 2000, [claimB, claimA], [(claimA, 2000)]⟩

theorem first_step : Step decimalInet Rpc.phonePairs bootText Rpc.phoneSession.id
    (World.start {} 0 Rpc.phoneSession.id) (leaseCall claimA 1000 1000 60000)
    ⟨oneLease 1 (grantedLease claimA [] 1000 60000), 1000, [claimA], []⟩ :=
  lease_step (w := World.start {} 0 Rpc.phoneSession.id) (by decide) lease_first

theorem second_step (leaseMs : ℤ) (h : leaseMs = 1000 ∨ leaseMs = 60000) :
    Step decimalInet Rpc.phonePairs bootText Rpc.phoneSession.id
      ⟨oneLease 1 (grantedLease claimA [] 1000 60000), 1000, [claimA], []⟩
      (leaseCall claimB 2000 2000 leaseMs) (replacedWorld leaseMs) :=
  lease_step (w := ⟨oneLease 1 (grantedLease claimA [] 1000 60000), 1000, [claimA], []⟩)
    (by decide) (lease_second leaseMs h)

/-- In a run whose requests keep out what they replace, a fenced claim only comes back with a
request that is younger than the fence. -/
theorem fenced_run (hrun : Run (Guarded (Protects pairs boot id) (Step inet pairs boot id))
      (World.start value now id) calls w)
    (hlast : Step inet pairs boot id w c w') (hid : c.paired.id = id)
    (hmode : c.args.mode = .value .phoneVpn) (hf : (c.args.claim, t) ∈ w.fences) :
    ∀ requested, c.args.requestUptimeMs = .value requested → t < requested := by
  intro requested hreq
  have hg := hrun.invariant (I := Guards pairs boot id)
    (fun _ _ _ hg h => guards_step h.2 h.1 hg) guards_start
  cases hlast with
  | accepted hnow hlast =>
    have hp := request_ok hlast
    obtain ⟨at', hat, -, -, hage⟩ := inWindow_iff.1 hp.window
    obtain rfl : requested = at' := by
      rw [hreq] at hat
      exact Field.value.inj hat
    have hover : t + 5000 < c.now := by
      rcases hg.shielded _ hf with hover | hs
      · exact lt_of_lt_of_le hover hnow
      · exact hs.refuse hnow hp hid hmode rfl
    omega

/-- A lease of a minute replaces another; the old claim comes back when both are over. -/
theorem fenced_run_minute : (claimA, 2000) ∈ (replacedWorld 60000).fences ∧ (2000 : ℤ) < 70000 := by
  have hmem : (claimA, 2000) ∈ (replacedWorld 60000).fences := List.mem_cons_self
  have hback : request decimalInet (replacedWorld 60000).journal Rpc.phonePairs Rpc.phoneSession
      (some pairedPhone) (leaseArgs claimA 70000 60000) 70000 bootText =
      .ok (oneLease 3 (grantedLease claimA [] 70000 60000)) := by decide
  have hfirst : Protects Rpc.phonePairs bootText Rpc.phoneSession.id
      (World.start {} 0 Rpc.phoneSession.id) (leaseCall claimA 1000 1000 60000) :=
    ⟨fun _ _ _ hc => (List.not_mem_nil hc).elim, fun _ h => by cases h⟩
  have hsecond : Protects Rpc.phonePairs bootText Rpc.phoneSession.id
      ⟨oneLease 1 (grantedLease claimA [] 1000 60000), 1000, [claimA], []⟩
      (leaseCall claimB 2000 2000 60000) := by
    refine ⟨fun _ _ claim hc _ => Or.inl ⟨grantedLease claimA [] 1000 60000, by decide, ?_, ?_⟩,
      fun _ h => by cases h⟩
    · simpa [Lease.claims, grantedLease] using hc
    · rintro ms ⟨⟩
      decide
  exact ⟨hmem, fenced_run (.stepL ⟨hfirst, first_step⟩ (.stepL ⟨hsecond, second_step _ (Or.inr rfl)⟩
    (.refl _))) (lease_step (by decide) hback) rfl rfl hmem 70000 rfl⟩

/-- A lease of a second replaces another; once it is over, the very request that it had replaced is
accepted again. -/
theorem fenced_broken : ¬ ∀ (inet : Inet) (pairs : Pairing.Record) (boot id : Text)
    (value : Journal) (now t : ℤ) (calls : List Call) (w w' : World) (c : Call),
    Run (Step inet pairs boot id) (World.start value now id) calls w →
    Step inet pairs boot id w c w' → c.paired.id = id → c.args.mode = .value .phoneVpn →
    (c.args.claim, t) ∈ w.fences →
    ∀ requested, c.args.requestUptimeMs = .value requested → t < requested := by
  intro h
  have hback : request decimalInet (replacedWorld 1000).journal Rpc.phonePairs Rpc.phoneSession
      (some pairedPhone) (leaseArgs claimA 1000 60000) 3000 bootText =
      .ok (oneLease 3 (grantedLease claimA [] 3000 60000)) := by decide
  have hlate := h decimalInet Rpc.phonePairs bootText Rpc.phoneSession.id {} 0 2000 _
    (replacedWorld 1000) _ (leaseCall claimA 3000 1000 60000)
    (.stepL first_step (.stepL (second_step _ (Or.inl rfl)) (.refl _)))
    (lease_step (by decide) hback) rfl rfl List.mem_cons_self 1000 rfl
  omega

end Foxhole.Handoff
