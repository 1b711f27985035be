import Foxhole.Handoff
import Foxhole.Lib.Passes

/-! What the router takes from a resolver's reply for an upstream server: handoff.uc. -/
namespace Foxhole.Handoff
open Check Text Address

/-- A number of the reply as `==` sees it: an integer, or a value that only compares as one. -/
inductive Kind where
  | int (n : ℤ)
  | loose (n : ℤ)
  | other
deriving DecidableEq

def Kind.eq (kind : Kind) (n : ℤ) : Bool :=
  match kind with
  | .int m | .loose m => m = n
  | .other => false

def Kind.isInt : Kind → Bool
  | .int _ => true
  | _ => false

structure Question where
  type : Kind
  name : Field Text
deriving DecidableEq

/-- A record of the answer: an alias (type 5) or an address (type 1). -/
structure Answer where
  type : Kind
  name : Field Text
  ttl : Field ℤ
  data : Field Text
deriving DecidableEq

/-- `truncated` is `TC == true`. -/
structure Reply where
  status : Kind
  truncated : Bool
  questions : Field (List Question)
  answers : Field (List Answer)
deriving DecidableEq

structure Resolved where
  addresses : List Text
  ttlMs : ℤ
deriving DecidableEq

/-- `^[A-Za-z0-9.-]+$` -/
def hostChars : Regex Char := .plus (.cls fun c => isAlnum c || c = '.' || c = '-')

/-- `^[a-z0-9]([a-z0-9-]{0,61}[a-z0-9])?$` -/
def hostLabel : Regex Char :=
  .seq (.cls fun c => isLower c || isDigit c)
    (.opt (.seq (.upTo 61 (.cls fun c => isLower c || isDigit c || c = '-'))
      (.cls fun c => isLower c || isDigit c)))

/-- `\.(local|localhost|lan|onion|invalid)$` -/
def localSuffixes : List Text :=
  [".local".toList, ".localhost".toList, ".lan".toList, ".onion".toList, ".invalid".toList]

def hostname (value : Text) : Except Err Text := do
  require (3 ≤ value.length ∧ value.length ≤ 253 ∧ hostChars.accepts value = true ∧ '.' ∈ value)
    .invalidHandoff
  require (∀ label ∈ (lc value).splitOn '.', hostLabel.accepts label = true) .invalidHandoff
  require (∀ suffix ∈ localSuffixes, ¬ suffix <:+ lc value) .invalidHandoff
  return lc value

def dnsName (value : Field Text) : Except Err Text :=
  match value with
  | .value name => hostname (if name.getLast? = some '.' then name.dropLast else name)
  | _ => throw .invalidHandoff

/-- `answer.TTL` is an integer from 0 to 86400. -/
def validTtl (ttl : Field ℤ) : Bool := ttl.value?.any fun t => 0 ≤ t && t ≤ 86400

def seconds (answer : Answer) : ℤ := answer.ttl.value?.getD 0

/-- An address of the public Internet, of four bytes. -/
def publicIpv4 (inet : Inet) (data : Field Text) : Option IpBytes :=
  data.value?.bind fun address =>
    if publicAddress inet address = true then
      (inet.iptoarr address).filter fun b => b.bytes.length = 4
    else none

/-- `related` and `ttl` of the loop over the aliases. -/
abbrev Related := Passes.State Text ℤ

/-- An alias of a related name makes its target related. -/
def follow (related : Related) (answer : Answer) : Except Err Related :=
  if answer.type.eq 5 = true then do
    let name ← dnsName answer.name
    if name ∈ related.met then do
      require (answer.type.isInt = true ∧ validTtl answer.ttl = true) .invalidHandoff
      let data ← dnsName answer.data
      pure ⟨data :: related.met, min related.least (seconds answer)⟩
    else pure related
  else pure related

/-- An address of a related name is collected, once. -/
def collect (inet : Inet) (related : List Text) (found : Related) (answer : Answer) :
    Except Err Related :=
  if answer.type.eq 1 = true then do
    let name ← dnsName answer.name
    if name ∈ related then
      match publicIpv4 inet answer.data with
      | none => throw .invalidHandoff
      | some b => do
        require (answer.type.isInt = true ∧ validTtl answer.ttl = true) .invalidHandoff
        let address := inet.arrtoip b
        pure ⟨if address ∈ found.met then found.met else found.met ++ [address],
          min found.least (seconds answer)⟩
    else pure found
  else pure found

/-- The one question of the reply is for the addresses of the host. -/
def asked (host : Text) (questions : Field (List Question)) : Except Err Unit :=
  match questions with
  | .value [question] => do
    require (question.type = .int 1) .invalidHandoff
    let name ← dnsName question.name
    require (name = host) .invalidHandoff
  | _ => throw .invalidHandoff

/-- The addresses that the answers give for the host, in eight passes over the aliases. -/
def resolve (inet : Inet) (host : Text) (answers : List Answer) : Except Err Resolved := do
  let related ← (List.range 8).foldlM (fun related _ => answers.foldlM follow related) ⟨[host], 60⟩
  let found ← answers.foldlM (collect inet related.met) ⟨[], related.least⟩
  require (found.met ≠ [] ∧ found.met.length ≤ 8) .invalidHandoff
  return ⟨found.met.insertionSort (· ≤ ·), found.least * 1000⟩

def dnsAnswer (inet : Inet) (reply : Reply) (host : Text) : Except Err Resolved := do
  let host ← hostname host
  require (reply.status = .int 0 ∧ reply.truncated = false) .invalidHandoff
  asked host reply.questions
  match reply.answers with
  | .value answers =>
    require (answers.length ≤ 32) .invalidHandoff
    resolve inet host answers
  | _ => throw .invalidHandoff

variable {inet : Inet} {host : Text} {reply : Reply} {answers answers' : List Answer}
  {answer : Answer} {related found found' : Related} {seen : List Text} {b : IpBytes}

/-! What the records say, read one by one. -/

def owner (answer : Answer) : Text := (dnsName answer.name).toOption.getD []

def target (answer : Answer) : Text := (dnsName answer.data).toOption.getD []

def aliases (answers : List Answer) : List Answer := answers.filter fun answer => answer.type.eq 5

/-- An alias or an address record with the members of its type. -/
structure WellFormed (answer : Answer) : Prop where
  type : answer.type.isInt = true
  name : Succeeds (dnsName answer.name)
  ttl : validTtl answer.ttl = true
  data : answer.type.eq 5 = true → Succeeds (dnsName answer.data)

/-- Records of other types are free. -/
def WellFormedAll (answers : List Answer) : Prop :=
  ∀ answer ∈ answers, answer.type.eq 5 = true ∨ answer.type.eq 1 = true → WellFormed answer

/-- The owner is the host, or an alias of it leads there. -/
def Reachable (host : Text) (answers : List Answer) (name : Text) : Prop :=
  Passes.Reached owner target (aliases answers) host name

/-- The record is an alias or an address of a name that the host leads to. -/
def Used (host : Text) (answers : List Answer) (answer : Answer) : Prop :=
  answer ∈ answers ∧ (answer.type.eq 5 = true ∨ answer.type.eq 1 = true) ∧
    Reachable host answers (owner answer)

/-- The addresses of the names the host leads to, and the least time they hold. -/
structure AnswerOf (host : Text) (answers : List Answer) (result : Resolved) : Prop where
  sorted : result.addresses.Pairwise (· < ·)
  addresses : ∀ address, address ∈ result.addresses ↔
    ∃ answer, Used host answers answer ∧ answer.type.eq 1 = true ∧ answer.data = .value address
  ttl : ∃ t, IsLeast (insert 60 {t | ∃ answer, Used host answers answer ∧ t = seconds answer}) t ∧
    result.ttlMs = t * 1000

/-- No alias that is used is more than seven aliases from the host. -/
def Near (host : Text) (answers : List Answer) : Prop :=
  ∀ answer ∈ aliases answers, Reachable host answers (owner answer) →
    Passes.Within owner target (aliases answers) host 7 (owner answer)

theorem eq_ok_of_succeeds {x : Except Err Text} (h : Succeeds x) :
    x = .ok (x.toOption.getD []) := by
  obtain ⟨a, ha⟩ := h
  rw [ha]
  rfl

theorem dnsName_owner (h : WellFormed answer) : dnsName answer.name = .ok (owner answer) :=
  eq_ok_of_succeeds h.name

theorem dnsName_target (h : WellFormed answer) (hc : answer.type.eq 5 = true) :
    dnsName answer.data = .ok (target answer) :=
  eq_ok_of_succeeds (h.data hc)

/-! The loop over the aliases is the passes over the alias records. -/

theorem follow_eq (h : answer.type.eq 5 = true → WellFormed answer) :
    follow related answer = .ok (if answer.type.eq 5 = true then
      Passes.visit owner target seconds related answer else related) := by
  unfold follow
  by_cases hc : answer.type.eq 5 = true
  · have hw := h hc
    rw [if_pos hc, if_pos hc, dnsName_owner hw]
    by_cases hm : owner answer ∈ related.met
    · simp [Passes.visit, hm, dnsName_target hw hc, hw.type, hw.ttl, require]
    · simp [Passes.visit, hm]
  · rw [if_neg hc, if_neg hc]
    rfl

theorem foldl_follow : answers.foldl (fun related answer => if answer.type.eq 5 = true then
      Passes.visit owner target seconds related answer else related) related =
    Passes.pass owner target seconds (aliases answers) related := by
  rw [Passes.pass, aliases, List.foldl_filter]

theorem foldlM_follow (h : WellFormedAll answers) : answers.foldlM follow related =
    .ok (Passes.pass owner target seconds (aliases answers) related) := by
  rw [← foldl_follow]
  exact foldlM_eq_foldl fun answer ha _ => follow_eq fun hc => h answer ha (Or.inl hc)

theorem foldlM_passes (host : Text) (h : WellFormedAll answers) (k : ℕ) :
    (List.range k).foldlM (fun related _ => answers.foldlM follow related) ⟨[host], 60⟩ =
      .ok (Passes.passes owner target seconds (aliases answers) host 60 k) := by
  induction k with
  | zero => rfl
  | succ k ih =>
    rw [List.range_succ, List.foldlM_append, ih]
    simp only [List.foldlM_cons, List.foldlM_nil, Passes.passes]
    exact (congrArg (· >>= pure) (foldlM_follow h)).trans rfl

/-! The loop over the addresses. -/

theorem hostAddress_self {address : Text} (h : hostAddress inet address = some address)
    (hb : inet.iptoarr address = some b) : inet.arrtoip b = address := by
  unfold hostAddress at h
  cases hv : addressData inet address with
  | none => simp [hv] at h
  | some info =>
    simp only [hv] at h
    split at h
    · have harr : inet.arrtoip info.bytes = address := Option.some.inj h
      have hread := inet.iptoarr_arrtoip info.bytes
      rw [harr, hb] at hread
      rw [Option.some.inj hread, harr]
    · cases h

/-- An accepted address is printed as it stands in the record. -/
theorem publicIpv4_data (h : publicIpv4 inet answer.data = some b) :
    answer.data = .value (inet.arrtoip b) := by
  unfold publicIpv4 at h
  cases hd : answer.data with
  | missing => simp [hd] at h
  | invalid => simp [hd] at h
  | value address =>
    simp only [hd, Field.value?_value, Option.bind_some] at h
    split at h
    · rename_i hp
      have hb : inet.iptoarr address = some b := (Option.filter_eq_some_iff.1 h).1
      have hh : hostAddress inet address = some address := by
        unfold publicAddress at hp
        simp only [Bool.and_eq_true, decide_eq_true_eq] at hp
        exact hp.1
      rw [hostAddress_self hh hb]
    · cases h

/-- The record is an address of a name seen. -/
def offers (seen : List Text) (answer : Answer) : Bool :=
  answer.type.eq 1 && decide (owner answer ∈ seen)

/-- What one address record adds. -/
def add (found : Related) (answer : Answer) : Related :=
  let address := answer.data.value?.getD []
  ⟨if address ∈ found.met then found.met else found.met ++ [address],
    min found.least (seconds answer)⟩

theorem collect_eq_ok (h : answer.type.eq 1 = true → WellFormed answer) :
    collect inet seen found answer = .ok found' ↔
      (offers seen answer = true → (publicIpv4 inet answer.data).isSome = true) ∧
      (if offers seen answer = true then add found answer else found) = found' := by
  unfold collect offers
  by_cases hc : answer.type.eq 1 = true
  · have hw := h hc
    rw [if_pos hc, dnsName_owner hw]
    by_cases hm : owner answer ∈ seen
    · cases hp : publicIpv4 inet answer.data with
      | none => simp [hm, hc]
      | some b =>
        simp [hm, hc, hw.type, hw.ttl, require, add, publicIpv4_data hp]
    · simp [hm]
  · simp [hc]

theorem foldlM_collect_eq_ok (h : WellFormedAll answers) :
    answers.foldlM (collect inet seen) found = .ok found' ↔
      (∀ answer ∈ answers, offers seen answer = true →
        (publicIpv4 inet answer.data).isSome = true) ∧
      (answers.filter (offers seen)).foldl add found = found' := by
  induction answers generalizing found with
  | nil => simp
  | cons answer answers ih =>
    have hhead : answer.type.eq 1 = true → WellFormed answer := fun hc =>
      h answer List.mem_cons_self (Or.inr hc)
    have htail : WellFormedAll answers := fun a ha => h a (List.mem_cons_of_mem _ ha)
    simp only [List.foldlM_cons, bind_eq_ok, collect_eq_ok hhead, ih htail,
      List.forall_mem_cons, List.filter_cons]
    by_cases ho : offers seen answer = true
    · simp [ho, and_assoc]
    · simp [ho]

/-- What is collected: no address twice, each of a record, and the least of the times. -/
structure Collected (first : ℤ) (used : List Answer) (found : Related) : Prop where
  nodup : found.met.Nodup
  met : ∀ address, address ∈ found.met ↔
    ∃ answer ∈ used, answer.data.value?.getD [] = address
  least : IsLeast (insert first {t | ∃ answer ∈ used, t = seconds answer}) found.least

theorem collected_nil {first : ℤ} : Collected first [] ⟨[], first⟩ :=
  ⟨List.nodup_nil, by simp, by simp⟩

theorem Collected.add {first : ℤ} {used : List Answer} (h : Collected first used found) :
    Collected first (used ++ [answer]) (add found answer) := by
  refine ⟨?_, fun address => ?_, ?_⟩
  · unfold Handoff.add
    by_cases hm : answer.data.value?.getD [] ∈ found.met
    · simpa [hm] using h.nodup
    · simpa [hm] using h.nodup.append (List.nodup_singleton _) (by simpa using hm)
  · have hmet := h.met address
    unfold Handoff.add
    by_cases hm : answer.data.value?.getD [] ∈ found.met
    · simp only [hm, if_true, hmet, List.mem_append, List.mem_singleton]
      refine ⟨fun ⟨a, ha, hd⟩ => ⟨a, Or.inl ha, hd⟩, ?_⟩
      rintro ⟨a, ha | rfl, hd⟩
      · exact ⟨a, ha, hd⟩
      · exact hmet.1 (hd ▸ hm)
    · simp only [hm, if_false, List.mem_append, List.mem_singleton, hmet]
      constructor
      · rintro (⟨a, ha, hd⟩ | rfl)
        · exact ⟨a, Or.inl ha, hd⟩
        · exact ⟨answer, Or.inr rfl, rfl⟩
      · rintro ⟨a, ha | rfl, hd⟩
        · exact Or.inl ⟨a, ha, hd⟩
        · exact Or.inr hd.symm
  · have hset : insert first {t | ∃ a ∈ used ++ [answer], t = seconds a} =
        insert (seconds answer) (insert first {t | ∃ a ∈ used, t = seconds a}) := by
      ext t
      simp only [Set.mem_insert_iff, Set.mem_ofPred_eq, List.mem_append, List.mem_singleton]
      constructor
      · rintro (h | ⟨a, ha | rfl, h⟩)
        · exact Or.inr (Or.inl h)
        · exact Or.inr (Or.inr ⟨a, ha, h⟩)
        · exact Or.inl h
      · rintro (h | h | ⟨a, ha, h⟩)
        · exact Or.inr ⟨answer, Or.inr rfl, h⟩
        · exact Or.inl h
        · exact Or.inr ⟨a, Or.inl ha, h⟩
    rw [hset, show (Handoff.add found answer).least = min (seconds answer) found.least from
      min_comm _ _]
    exact h.least.insert _

theorem collected_foldl {first : ℤ} {used : List Answer} :
    Collected first used (used.foldl Handoff.add ⟨[], first⟩) := by
  induction used using List.reverseRecOn with
  | nil => exact collected_nil
  | append_singleton used answer ih =>
    rw [List.foldl_append]
    exact ih.add

/-! The two loops together give the answer. -/

theorem AnswerOf.unique {r r' : Resolved} (h : AnswerOf host answers r)
    (h' : AnswerOf host answers r') : r = r' := by
  obtain ⟨t, ht, hr⟩ := h.ttl
  obtain ⟨t', ht', hr'⟩ := h'.ttl
  have haddresses : r.addresses = r'.addresses :=
    List.Pairwise.eq_of_mem_iff h.sorted h'.sorted fun address => by
      rw [h.addresses, h'.addresses]
  have hms : r.ttlMs = r'.ttlMs := by
    rw [hr, hr', ht.unique ht']
  cases r
  cases r'
  cases haddresses
  cases hms
  rfl

theorem offers_iff (hmet : ∀ name, name ∈ seen ↔ Reachable host answers name) :
    answer ∈ answers.filter (offers seen) ↔
      Used host answers answer ∧ answer.type.eq 1 = true := by
  simp only [List.mem_filter, offers, Bool.and_eq_true, decide_eq_true_eq, hmet, Used]
  constructor
  · rintro ⟨ha, hc, hr⟩
    exact ⟨⟨ha, Or.inr hc, hr⟩, hc⟩
  · rintro ⟨⟨ha, -, hr⟩, hc⟩
    exact ⟨ha, hc, hr⟩

theorem mem_aliases : answer ∈ aliases answers ↔ answer ∈ answers ∧ answer.type.eq 5 = true := by
  simp [aliases]

/-- The least of both loops is the least of all the records used. -/
theorem least_used (hmet : ∀ name, name ∈ related.met ↔ Reachable host answers name)
    (hleast : IsLeast (insert 60 {t | ∃ e ∈ aliases answers,
      Passes.Reached owner target (aliases answers) host (owner e) ∧ t = seconds e}) related.least)
    (hfound : Collected related.least (answers.filter (offers related.met)) found) :
    IsLeast (insert 60 {t | ∃ answer, Used host answers answer ∧ t = seconds answer})
      found.least := by
  constructor
  · rcases hfound.least.1 with h | ⟨a, ha, h⟩
    · rw [h]
      rcases hleast.1 with h | ⟨e, he, hr, h⟩
      · exact Or.inl h
      · have he := mem_aliases.1 he
        exact Or.inr ⟨e, ⟨he.1, Or.inl he.2, hr⟩, h⟩
    · exact Or.inr ⟨a, ((offers_iff hmet).1 ha).1, h⟩
  · have hfirst : found.least ≤ related.least := hfound.least.2 (Set.mem_insert _ _)
    rintro t (rfl | ⟨a, ⟨ha, hc | hc, hr⟩, rfl⟩)
    · exact hfirst.trans (hleast.2 (Set.mem_insert _ _))
    · exact hfirst.trans (hleast.2 (Or.inr ⟨a, mem_aliases.2 ⟨ha, hc⟩, hr, rfl⟩))
    · exact hfound.least.2 (Or.inr ⟨a, (offers_iff hmet).2 ⟨⟨ha, Or.inr hc, hr⟩, hc⟩, rfl⟩)

theorem answerOf_found (hmet : ∀ name, name ∈ related.met ↔ Reachable host answers name)
    (hleast : IsLeast (insert 60 {t | ∃ e ∈ aliases answers,
      Passes.Reached owner target (aliases answers) host (owner e) ∧ t = seconds e}) related.least)
    (hpublic : ∀ answer ∈ answers, offers related.met answer = true →
      (publicIpv4 inet answer.data).isSome = true)
    (hfound : Collected related.least (answers.filter (offers related.met)) found) :
    AnswerOf host answers ⟨found.met.insertionSort (· ≤ ·), found.least * 1000⟩ := by
  refine ⟨?_, fun address => ?_, found.least, least_used hmet hleast hfound, rfl⟩
  · have hperm := List.perm_insertionSort (· ≤ ·) found.met
    have hnodup := hperm.nodup_iff.2 hfound.nodup
    have hle := List.pairwise_insertionSort (· ≤ ·) found.met
    exact (hle.and hnodup).imp fun h => Std.lt_of_le_of_ne h.1 h.2
  · rw [(List.perm_insertionSort (· ≤ ·) found.met).mem_iff, hfound.met]
    have hdata : ∀ a ∈ answers.filter (offers related.met),
        (a.data.value?.getD [] = address ↔ a.data = .value address) := by
      intro a ha
      have ha := List.mem_filter.1 ha
      obtain ⟨b, hb⟩ := Option.isSome_iff_exists.1 (hpublic a ha.1 ha.2)
      rw [publicIpv4_data hb]
      simp
    constructor
    · rintro ⟨a, ha, hd⟩
      obtain ⟨hu, hc⟩ := (offers_iff hmet).1 ha
      exact ⟨a, hu, hc, (hdata a ha).1 hd⟩
    · rintro ⟨a, hu, hc, hd⟩
      have ha := (offers_iff hmet).2 ⟨hu, hc⟩
      exact ⟨a, ha, (hdata a ha).2 hd⟩

theorem resolve_eq_ok {result : Resolved} (h : WellFormedAll answers) (hnear : Near host answers) :
    resolve inet host answers = .ok result ↔
      (∀ answer, Used host answers answer → answer.type.eq 1 = true →
        (publicIpv4 inet answer.data).isSome = true) ∧
      AnswerOf host answers result ∧ result.addresses ≠ [] ∧ result.addresses.length ≤ 8 := by
  obtain ⟨hmet, hleast⟩ := Passes.passes_closed owner target seconds (aliases answers)
    host (60 : ℤ) 8
    fun e he hr => ⟨7, by omega, hnear e he hr⟩
  have hloop := foldlM_passes host h 8
  revert hmet hleast hloop
  generalize Passes.passes owner target seconds (aliases answers) host (60 : ℤ) 8 = related
  intro hmet hleast hloop
  have hpublic : (∀ answer ∈ answers, offers related.met answer = true →
        (publicIpv4 inet answer.data).isSome = true) ↔
      ∀ answer, Used host answers answer → answer.type.eq 1 = true →
        (publicIpv4 inet answer.data).isSome = true := by
    constructor
    · intro hp a hu hc
      have ha := List.mem_filter.1 ((offers_iff hmet).2 ⟨hu, hc⟩)
      exact hp a ha.1 ha.2
    · intro hp a ha ho
      obtain ⟨hu, hc⟩ := (offers_iff hmet).1 (List.mem_filter.2 ⟨ha, ho⟩)
      exact hp a hu hc
  have hsort (l : List Text) := List.perm_insertionSort (· ≤ ·) l
  simp only [resolve, bind_eq_ok, hloop, Except.ok.injEq, exists_eq_left', require_eq_ok,
    exists_and_left, pure_eq_ok, foldlM_collect_eq_ok h]
  constructor
  · rintro ⟨found, ⟨hp, rfl⟩, ⟨hne, hlen⟩, -, rfl⟩
    refine ⟨hpublic.1 hp, answerOf_found hmet hleast hp collected_foldl, ?_, ?_⟩
    · intro hnil
      exact hne (List.eq_nil_of_length_eq_zero ((hsort _).length_eq ▸ congrArg List.length hnil))
    · exact (hsort _).length_eq.le.trans hlen
  · rintro ⟨hp, hof, hne, hlen⟩
    have hp := hpublic.2 hp
    have hsame := (answerOf_found hmet hleast hp collected_foldl).unique hof
    subst hsame
    refine ⟨_, ⟨hp, rfl⟩, ⟨fun hnil => hne ?_, ?_⟩, (), rfl⟩
    · exact List.eq_nil_of_length_eq_zero ((hsort _).length_eq.trans (congrArg List.length hnil))
    · exact (hsort _).length_eq.symm.le.trans hlen

/-! The order of the records. -/

theorem aliases_subset (h : answers ⊆ answers') : aliases answers ⊆ aliases answers' := by
  intro a ha
  have ha := mem_aliases.1 ha
  exact mem_aliases.2 ⟨h ha.1, ha.2⟩

theorem Reachable.of_subset {name : Text} (h : answers ⊆ answers')
    (hr : Reachable host answers name) : Reachable host answers' name := by
  obtain ⟨n, hn⟩ := hr
  exact ⟨n, hn.of_subset (aliases_subset h)⟩

theorem used_iff (h : answers.Perm answers') :
    Used host answers answer ↔ Used host answers' answer := by
  have hr : Reachable host answers (owner answer) ↔ Reachable host answers' (owner answer) :=
    ⟨.of_subset h.subset, .of_subset h.symm.subset⟩
  rw [Used, Used, h.mem_iff, hr]

theorem answerOf_iff {result : Resolved} (h : answers.Perm answers') :
    AnswerOf host answers result ↔ AnswerOf host answers' result := by
  constructor <;> intro hr <;>
    exact ⟨hr.sorted, by simpa [used_iff h] using hr.addresses, by simpa [used_iff h] using hr.ttl⟩

theorem WellFormedAll.perm (h : WellFormedAll answers) (hp : answers.Perm answers') :
    WellFormedAll answers' := fun a ha => h a (hp.mem_iff.2 ha)

theorem Near.perm (h : Near host answers) (hp : answers.Perm answers') : Near host answers' := by
  intro a ha hr
  have hw := h a (aliases_subset hp.symm.subset ha) (hr.of_subset hp.symm.subset)
  exact hw.of_subset (aliases_subset hp.subset)

/-! There is one way to refuse. -/
section Refuses
variable {α β : Type} {x y : Except Err α} {f : α → Except Err β}

def Refuses (x : Except Err α) : Prop := ∀ e, x = .error e → e = .invalidHandoff

theorem refuses_pure {a : α} : Refuses (pure a) := fun _ h => nomatch h

theorem refuses_throw : Refuses (throw .invalidHandoff : Except Err α) := by
  intro e h
  cases h
  rfl

theorem refuses_require {p : Prop} [Decidable p] : Refuses (require p Err.invalidHandoff) :=
  fun _ h => (require_eq_error.1 h).2.symm

theorem Refuses.bind (hx : Refuses x) (hf : ∀ a, Refuses (f a)) : Refuses (x >>= f) := by
  intro e h
  cases x with
  | error e' =>
    cases h
    exact hx e rfl
  | ok a => exact hf a e h

theorem refuses_foldlM {g : β → α → Except Err β} (hg : ∀ b a, Refuses (g b a)) (l : List α)
    (b : β) : Refuses (l.foldlM g b) := by
  induction l generalizing b with
  | nil => exact refuses_pure
  | cons a l ih => exact (hg b a).bind ih

theorem Refuses.eq_of_ok (hx : Refuses x) (hy : Refuses y) (h : ∀ a, x = .ok a ↔ y = .ok a) :
    x = y := by
  cases x with
  | ok a => exact ((h a).1 rfl).symm
  | error e =>
    cases y with
    | ok a => exact (h a).2 rfl
    | error e' => rw [hx e rfl, hy e' rfl]

end Refuses

theorem refuses_hostname {value : Text} : Refuses (hostname value) :=
  refuses_require.bind fun _ => refuses_require.bind fun _ => refuses_require.bind fun _ =>
    refuses_pure

theorem refuses_dnsName {value : Field Text} : Refuses (dnsName value) := by
  cases value with
  | value name => exact refuses_hostname
  | missing => exact refuses_throw
  | invalid => exact refuses_throw

theorem refuses_follow : Refuses (follow related answer) := by
  unfold follow
  split
  · refine refuses_dnsName.bind fun name => ?_
    split
    · exact refuses_require.bind fun _ => refuses_dnsName.bind fun _ => refuses_pure
    · exact refuses_pure
  · exact refuses_pure

theorem refuses_collect : Refuses (collect inet seen found answer) := by
  unfold collect
  split
  · refine refuses_dnsName.bind fun name => ?_
    split
    · split
      · exact refuses_throw
      · exact refuses_require.bind fun _ => refuses_pure
    · exact refuses_pure
  · exact refuses_pure

theorem refuses_resolve : Refuses (resolve inet host answers) := by
  have hloop (related : Related) : Refuses (answers.foldlM follow related) :=
    refuses_foldlM (fun _ _ => refuses_follow) _ _
  refine (refuses_foldlM (fun related _ => hloop related) _ _).bind fun related => ?_
  refine (refuses_foldlM (fun _ _ => refuses_collect) _ _).bind fun found => ?_
  exact refuses_require.bind fun _ => refuses_pure

theorem resolve_perm (inet : Inet) (h : WellFormedAll answers) (hnear : Near host answers)
    (hp : answers.Perm answers') :
    resolve inet host answers' = resolve inet host answers := by
  refine refuses_resolve.eq_of_ok refuses_resolve fun result => ?_
  rw [resolve_eq_ok h hnear, resolve_eq_ok (h.perm hp) (hnear.perm hp), answerOf_iff hp]
  simp only [used_iff hp]

theorem dnsAnswer_eq_ok {result : Resolved} : dnsAnswer inet reply host = .ok result ↔
    ∃ name answers, hostname host = .ok name ∧ reply.answers = .value answers ∧
      (reply.status = .int 0 ∧ reply.truncated = false) ∧
      asked name reply.questions = .ok () ∧ answers.length ≤ 32 ∧
      resolve inet name answers = .ok result := by
  unfold dnsAnswer
  cases reply.answers with
  | missing => simp
  | invalid => simp
  | value answers =>
    simp only [bind_eq_ok, require_eq_ok, Field.value.injEq]
    constructor
    · rintro ⟨name, hname, _, hs, _, hq, _, hl, hr⟩
      exact ⟨name, answers, hname, rfl, hs, hq, hl, hr⟩
    · rintro ⟨name, _, hname, rfl, hs, hq, hl, hr⟩
      exact ⟨name, hname, (), hs, (), hq, (), hl, hr⟩

/-- The reply with its records in another order. -/
def Reply.ordered (reply : Reply) (answers : List Answer) : Reply :=
  { reply with answers := .value answers }

/-- When no alias in use is more than seven aliases away, the order of the records does not count,
and what is taken is the closure of the host over the aliases. -/
theorem dnsAnswer_closed (inet : Inet) (reply : Reply) (host : Text) (answers : List Answer)
    (hanswers : reply.answers = .value answers) (h : WellFormedAll answers)
    (hnear : Near (lc host) answers) :
    (∀ answers', answers.Perm answers' →
      dnsAnswer inet (reply.ordered answers') host = dnsAnswer inet reply host) ∧
    ∀ result, dnsAnswer inet reply host = .ok result → AnswerOf (lc host) answers result := by
  have hlc {name : Text} (hname : hostname host = .ok name) : name = lc host := by
    simp only [hostname, bind_eq_ok, pure_eq_ok] at hname
    obtain ⟨-, -, -, -, -, -, rfl⟩ := hname
    rfl
  constructor
  · intro answers' hp
    have hordered : reply = reply.ordered answers := by
      cases reply
      cases hanswers
      rfl
    rw [hordered]
    unfold dnsAnswer
    cases hname : hostname host with
    | error e => rfl
    | ok name =>
      have hresolve := resolve_perm inet h hnear hp
      simp only [Reply.ordered, hp.length_eq, hlc hname]
      show (require _ _ >>= _) = (require _ _ >>= _)
      rw [hresolve]
      rfl
  · intro result hr
    obtain ⟨name, found, hname, hfound, -, -, -, hr⟩ := dnsAnswer_eq_ok.1 hr
    cases hanswers.symm.trans hfound
    rw [hlc hname] at hr
    exact ((resolve_eq_ok h hnear).1 hr).2.1

/-- The reply of a resolver that was asked for one name. -/
def replyFor (name : Text) (answers : List Answer) : Reply where
  status := .int 0
  truncated := false
  questions := .value [⟨.int 1, .value name⟩]
  answers := .value answers

def aliasRecord (name data : Text) : Answer := ⟨.int 5, .value name, .value 10, .value data⟩

def addressRecord (name data : Text) : Answer := ⟨.int 1, .value name, .value 120, .value data⟩

def checkedRecord (answer : Answer) : Bool :=
  answer.type.isInt && (dnsName answer.name).toOption.isSome && validTtl answer.ttl &&
    (!answer.type.eq 5 || (dnsName answer.data).toOption.isSome)

theorem wellFormed_checked (h : checkedRecord answer = true) : WellFormed answer := by
  have hs {x : Except Err Text} (hx : x.toOption.isSome = true) : Succeeds x := by
    cases x with
    | ok a => exact ⟨a, rfl⟩
    | error e => cases hx
  simp only [checkedRecord, Bool.and_eq_true, Bool.or_eq_true, Bool.not_eq_true'] at h
  obtain ⟨⟨⟨htype, hname⟩, httl⟩, hdata⟩ := h
  refine ⟨htype, hs hname, httl, fun hc => ?_⟩
  rcases hdata with hn | hd
  · rw [hn] at hc
    cases hc
  · exact hs hd

/-- One alias, and the address of its target. -/
def oneAlias : List Answer :=
  [aliasRecord "example.com".toList "node.example.com".toList,
    addressRecord "node.example.com".toList "1.1.1.1".toList]

theorem oneAlias_checked : oneAlias.all checkedRecord = true := by decide

theorem oneAlias_read :
    dnsAnswer decimalInet (replyFor "example.com".toList oneAlias) "example.com".toList =
      .ok ⟨["1.1.1.1".toList], 10000⟩ := by decide

theorem oneAlias_owner :
    owner (aliasRecord "example.com".toList "node.example.com".toList) =
      lc "example.com".toList := by decide

theorem oneAlias_aliases :
    aliases oneAlias = [aliasRecord "example.com".toList "node.example.com".toList] := by
  decide

theorem dnsAnswer_oneAlias :
    dnsAnswer decimalInet (replyFor "example.com".toList oneAlias.reverse) "example.com".toList =
      .ok ⟨["1.1.1.1".toList], 10000⟩ ∧
    AnswerOf (lc "example.com".toList) oneAlias ⟨["1.1.1.1".toList], 10000⟩ := by
  have hnear : Near (lc "example.com".toList) oneAlias := by
    intro a ha _
    rw [oneAlias_aliases, List.mem_singleton] at ha
    rw [ha, oneAlias_owner]
    exact .start
  obtain ⟨hperm, hof⟩ := dnsAnswer_closed decimalInet (replyFor "example.com".toList oneAlias)
    "example.com".toList oneAlias rfl
    (fun a ha _ => wellFormed_checked (List.all_eq_true.1 oneAlias_checked a ha)) hnear
  exact ⟨(hperm _ (List.reverse_perm _).symm).trans oneAlias_read, hof _ oneAlias_read⟩

/-- Nine aliases in a row, from a.io to j.io. -/
def nineAliases : List Answer :=
  (List.range 9).map (fun i => aliasRecord (Char.ofNat (97 + i) :: ".io".toList)
    (Char.ofNat (98 + i) :: ".io".toList)) ++ [addressRecord "j.io".toList "1.1.1.1".toList]

theorem nineAliases_checked : nineAliases.all checkedRecord = true := by decide

theorem nineAliases_forwards :
    (dnsAnswer decimalInet (replyFor "a.io".toList nineAliases) "a.io".toList).toOption.isSome =
      true := by decide

theorem nineAliases_backwards :
    (dnsAnswer decimalInet (replyFor "a.io".toList nineAliases.reverse)
      "a.io".toList).toOption.isSome = false := by decide

/-- Over nine aliases the eight passes reach the end in one order only. -/
theorem dnsAnswer_order : ¬ ∀ (inet : Inet) (reply : Reply) (host : Text) (answers : List Answer),
    reply.answers = .value answers → (∀ answer ∈ answers, WellFormed answer) →
    (∀ answers', answers.Perm answers' →
      dnsAnswer inet (reply.ordered answers') host = dnsAnswer inet reply host) ∧
    ∀ result, dnsAnswer inet reply host = .ok result → AnswerOf (lc host) answers result := by
  intro hall
  have hsame := (hall decimalInet (replyFor "a.io".toList nineAliases) "a.io".toList nineAliases rfl
    (fun a ha => wellFormed_checked (List.all_eq_true.1 nineAliases_checked a ha))).1 _
    (List.reverse_perm _).symm
  have hforwards := nineAliases_forwards
  rw [← hsame] at hforwards
  exact absurd (hforwards.symm.trans nineAliases_backwards) (by decide)

end Foxhole.Handoff
