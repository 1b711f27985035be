import Foxhole.Sessions

/-! What each session call leaves of the phones' sessions. -/
namespace Foxhole.Sessions
open Check Text Command

variable {env : Env} {out : Outside} {world world' : World} {token sid : Text} {item : Item}
  {paired : Pairing.Session}

/-- A token of a phone starts with `p1.`. -/
def phoneToken (token : Text) : Bool := "p1.".toList.isPrefixOf token

/-- The record holds the pairing with its verifier. -/
def Holds (paired : Pairing.Session) (world : World) : Prop :=
  Pairing.sessionCurrent world.disk.pairs paired = true

/-- The owner has chosen a PIN. -/
def Changed (world : World) : Prop := ∃ auth, world.auth = .value auth ∧ auth.changed = true

/-- The session table has the token for the pairing. -/
def Open (token : Text) (paired : Pairing.Session) (world : World) : Prop :=
  ∃ item, (token, item) ∈ world.sessions ∧ item.pairing = some paired

/-- The tokens of phones stand for pairings. -/
def Tagged (world : World) : Prop :=
  ∀ entry ∈ world.sessions, phoneToken entry.1 = true → entry.2.pairing ≠ none

/-- The phones' sessions of the second world are among those of the first. -/
structure Shrinks (world world' : World) : Prop where
  opened : ∀ token paired, Open token paired world' → Open token paired world
  tagged : Tagged world → Tagged world'

/-- So they are, and while a PIN is set the files still back them. -/
structure Kept (world world' : World) : Prop extends Shrinks world world' where
  files : Changed world → world'.auth = world.auth ∧ ∀ paired, Holds paired world →
    Holds paired world'

theorem Shrinks.refl (world : World) : Shrinks world world := ⟨fun _ _ h => h, fun h => h⟩

theorem Shrinks.trans (a b c : World) (hab : Shrinks a b) (hbc : Shrinks b c) : Shrinks a c :=
  ⟨fun token paired h => hab.opened token paired (hbc.opened token paired h),
    fun h => hbc.tagged (hab.tagged h)⟩

theorem Shrinks.of_eq (h : world'.sessions = world.sessions) : Shrinks world world' := by
  refine ⟨fun token paired ho => ?_, fun ht => ?_⟩
  · rwa [Open, h] at ho
  · rwa [Tagged, h]

/-- Nothing but files that back no session changes. -/
theorem Kept.of_eq (hs : world'.sessions = world.sessions) (ha : world'.auth = world.auth)
    (hp : world'.disk.pairs = world.disk.pairs) : Kept world world' := by
  refine ⟨.of_eq hs, fun _ => ⟨ha, fun paired h => ?_⟩⟩
  rwa [Holds, hp]

theorem Kept.refl (world : World) : Kept world world := .of_eq rfl rfl rfl

theorem Kept.changed (h : Kept world world') (hc : Changed world) : Changed world' := by
  obtain ⟨auth, hauth, hset⟩ := hc
  exact ⟨auth, (h.files ⟨auth, hauth, hset⟩).1.trans hauth, hset⟩

theorem Kept.trans (a b c : World) (hab : Kept a b) (hbc : Kept b c) : Kept a c where
  toShrinks := Shrinks.trans a b c hab.toShrinks hbc.toShrinks
  files := fun hc =>
    have hb := hbc.files (hab.changed hc)
    have ha := hab.files hc
    ⟨hb.1.trans ha.1, fun paired h => hb.2 paired (ha.2 paired h)⟩

/-- Only the session table changes, and gains no phone. -/
theorem Kept.of_sessions {sessions : Table}
    (h : ∀ entry ∈ sessions, (phoneToken entry.1 = false ∧ entry.2.pairing = none) ∨
      ∃ old, (entry.1, old) ∈ world.sessions ∧ old.pairing = entry.2.pairing) :
    Kept world (setSessions sessions world) where
  opened := by
    rintro token paired ⟨item, hi, hp⟩
    rcases h _ hi with ⟨-, hnone⟩ | ⟨old, hold, he⟩
    · rw [hp] at hnone
      cases hnone
    · exact ⟨old, hold, he.trans hp⟩
  tagged := by
    intro htagged entry hentry hphone
    rcases h _ hentry with ⟨hplain, -⟩ | ⟨old, hold, he⟩
    · rw [hphone] at hplain
      cases hplain
    · exact he ▸ htagged _ hold hphone
  files := fun _ => ⟨rfl, fun _ h => h⟩

theorem Table.find_mem {sessions : Table} (h : sessions.find token = some item) :
    (token, item) ∈ sessions := by
  simp only [Table.find, Option.map_eq_some_iff] at h
  obtain ⟨⟨key, found⟩, hf, rfl⟩ := h
  have hkey : key = token := by simpa using List.find?_some hf
  exact hkey ▸ List.mem_of_find?_eq_some hf

theorem Table.mem_erase {sessions : Table} {entry : Text × Item} :
    entry ∈ sessions.erase token ↔ entry ∈ sessions ∧ entry.1 ≠ token := by
  simp [Table.erase]

theorem Table.mem_put {sessions : Table} {entry : Text × Item} :
    entry ∈ sessions.put token item ↔
      (entry ∈ sessions ∧ entry.1 ≠ token) ∨ entry = (token, item) := by
  simp [Table.put, Table.mem_erase]

theorem kept_erase : Kept world (setSessions (world.sessions.erase token) world) :=
  .of_sessions fun entry h => Or.inr ⟨entry.2, (Table.mem_erase.1 h).1, rfl⟩

theorem kept_put_old {old : Item} (hold : (token, old) ∈ world.sessions)
    (hp : item.pairing = old.pairing) :
    Kept world (setSessions (world.sessions.put token item) world) := by
  refine .of_sessions fun entry h => ?_
  rcases Table.mem_put.1 h with ⟨h, -⟩ | rfl
  · exact Or.inr ⟨entry.2, h, rfl⟩
  · exact Or.inr ⟨old, hold, hp.symm⟩

theorem kept_put_none (ht : phoneToken token = false) (hp : item.pairing = none) :
    Kept world (setSessions (world.sessions.put token item) world) := by
  refine .of_sessions fun entry h => ?_
  rcases Table.mem_put.1 h with ⟨h, -⟩ | rfl
  · exact Or.inr ⟨entry.2, h, rfl⟩
  · exact Or.inl ⟨ht, hp⟩

/-- A token without the tag is not a phone's. -/
theorem phoneToken_hex (token : Hex 64) : phoneToken token = false := by
  obtain ⟨token, hshape⟩ := token
  have hhex : ∀ c ∈ token, isHex c = true :=
    (Regex.accepts_rep_cls.1 hshape).2
  cases token with
  | nil => rfl
  | cons c token =>
    have hc : c ≠ 'p' := by
      rintro rfl
      exact absurd (hhex 'p' List.mem_cons_self) (by decide)
    simp [phoneToken, List.isPrefixOf, Ne.symm hc]

/-! The commands that keep the phones' sessions and what backs them. -/

theorem keeps_bind {α β : Type} {x : Call α} {f : α → Call β} (hx : Within Kept x)
    (hf : ∀ a, Within Kept (f a)) : Within Kept (x >>= f) := within_bind Kept.trans hx hf

theorem keeps_get_bind {β : Type} {f : World → Call β} (hf : ∀ a, Within Kept (f a)) :
    Within Kept (get >>= f) := keeps_bind (within_get Kept.refl) hf

theorem keeps_lift_bind {α β : Type} {y : Except Err α} {f : α → Call β}
    (hf : ∀ a, Within Kept (f a)) : Within Kept (liftM y >>= f) :=
  keeps_bind (within_lift Kept.refl) hf

theorem keeps_ensure_bind {β : Type} {p : Prop} [Decidable p] {e : Err} {f : Unit → Call β}
    (hf : ∀ a, Within Kept (f a)) : Within Kept (ensure p e >>= f) :=
  keeps_bind (within_ensure Kept.refl) hf

theorem Table.find_put {sessions : Table} : (sessions.put token item).find token = some item := by
  have hnone : List.find? (fun entry => decide (entry.1 = token))
      (sessions.erase token) = none := by
    rw [List.find?_eq_none]
    intro entry hentry
    simpa using (Table.mem_erase.1 hentry).2
  rw [Table.find, Table.put, List.find?_append, hnone]
  simp

theorem checkPairing_cases {r : Except Err Unit}
    (h : exec (checkPairing token item) world = (r, world')) :
    Kept world world' ∧ (r = .ok () → world' = world ∧ ∀ paired, item.pairing = some paired →
      Holds paired world) := by
  simp only [checkPairing, exec_get_bind] at h
  split at h
  · rename_i hall
    simp only [exec_pure] at h
    cases h
    refine ⟨.refl _, fun _ => ⟨rfl, fun paired hp => ?_⟩⟩
    rw [hp] at hall
    exact hall
  · simp only [exec_bind, exec_modify, exec_throw] at h
    cases h
    exact ⟨kept_erase, by rintro ⟨⟩⟩

theorem extend_cases {r : Except Err Unit} (hfind : world.sessions.find token = some item)
    (h : exec (extend out token item) world = (r, world')) :
    Kept world world' ∧ (world'.sessions.find token).isSome := by
  unfold extend at h
  split at h
  · simp only [exec_pure] at h
    cases h
    exact ⟨.refl _, by simp [hfind]⟩
  · simp only [exec_modify] at h
    cases h
    exact ⟨kept_put_old (Table.find_mem hfind) rfl, by simp [setSessions, Table.find_put]⟩

/-- A session that is accepted is in the table, and the record holds its pairing. -/
theorem sessionOf_cases {r : Except Err Text} {allowSetup : Bool}
    (hfind : world.sessions.find token = some item)
    (h : exec (sessionOf out allowSetup token item) world = (r, world')) :
    Kept world world' ∧ ∀ sid, r = .ok sid → sid = token ∧
      (world'.sessions.find token).isSome ∧
      ∀ paired, item.pairing = some paired → Holds paired world := by
  simp only [sessionOf] at h
  rcases exec_ensure_bind_cases h with ⟨-, rfl, rfl⟩ | ⟨-, h⟩
  · exact ⟨.refl _, by rintro _ ⟨⟩⟩
  split at h
  · simp only [exec_bind, exec_modify, exec_throw] at h
    cases h
    exact ⟨kept_erase, by rintro _ ⟨⟩⟩
  rcases exec_ensure_bind_cases h with ⟨-, rfl, rfl⟩ | ⟨-, h⟩
  · exact ⟨.refl _, by rintro _ ⟨⟩⟩
  rcases exec_bind_cases h with ⟨e, hx, rfl⟩ | ⟨_, u, hcheck, hrest⟩
  · exact ⟨(checkPairing_cases hx).1, by rintro _ ⟨⟩⟩
  obtain ⟨-, hok⟩ := checkPairing_cases hcheck
  obtain ⟨rfl, hholds⟩ := hok rfl
  rcases exec_bind_cases hrest with ⟨e, hx, rfl⟩ | ⟨_, v, hx, hret⟩
  · exact ⟨(extend_cases hfind hx).1, by rintro _ ⟨⟩⟩
  simp only [exec_pure] at hret
  cases hret
  obtain ⟨hkept, hfound⟩ := extend_cases hfind hx
  refine ⟨hkept, ?_⟩
  rintro sid ⟨⟩
  exact ⟨rfl, hfound, hholds⟩

theorem session_cases {r : Except Err Text} {field : Field Text} {allowSetup : Bool}
    (h : exec (session out field allowSetup) world = (r, world')) :
    Kept world world' ∧ ∀ sid, r = .ok sid → field = .value sid ∧
      (world'.sessions.find sid).isSome ∧ ∃ item, (sid, item) ∈ world.sessions ∧
      ∀ paired, item.pairing = some paired → Holds paired world := by
  unfold session at h
  split at h
  · rename_i token
    rcases exec_ensure_bind_cases h with ⟨-, rfl, rfl⟩ | ⟨-, h⟩
    · exact ⟨.refl _, by rintro _ ⟨⟩⟩
    rw [exec_get_bind] at h
    split at h
    · simp only [exec_throw] at h
      cases h
      exact ⟨.refl _, by rintro _ ⟨⟩⟩
    · rename_i item hfind
      obtain ⟨hk, hok⟩ := sessionOf_cases hfind h
      refine ⟨hk, fun sid hr => ?_⟩
      obtain ⟨rfl, hfound, hholds⟩ := hok sid hr
      exact ⟨rfl, hfound, item, Table.find_mem hfind, hholds⟩
  · simp only [exec_throw] at h
    cases h
    exact ⟨.refl _, by rintro _ ⟨⟩⟩

theorem keeps_session {field : Field Text} {allowSetup : Bool} :
    Within Kept (session out field allowSetup) := by
  intro world
  exact (session_cases (Prod.eta _).symm).1

theorem exec_store {file : File} {write : World → World} : exec (store out file write) world =
    if out.stores file then (.ok (), write world) else (.error .storageError, world) := by
  rw [store, exec_bind, exec_ensure]
  cases out.stores file <;> rfl

theorem store_bind_cases {β : Type} {file : File} {write : World → World} {f : Unit → Call β}
    {r : Except Err β} (h : exec (store out file write >>= f) world = (r, world')) :
    (out.stores file = false ∧ r = .error .storageError ∧ world' = world) ∨
      (out.stores file = true ∧ exec (f ()) (write world) = (r, world')) := by
  simp only [store, bind_assoc] at h
  rcases exec_ensure_bind_cases h with ⟨hs, rfl, rfl⟩ | ⟨hs, h⟩
  · exact Or.inl ⟨Bool.not_eq_true _ ▸ hs, rfl, rfl⟩
  · exact Or.inr ⟨hs, h⟩

theorem keeps_store {file : File} {write : World → World} (hw : ∀ world, Kept world (write world)) :
    Within Kept (store out file write) := by
  refine keeps_ensure_bind fun _ => ?_
  exact hw

theorem keeps_ownerSession {field : Field Text} {allowSetup : Bool} :
    Within Kept (ownerSession out field allowSetup) :=
  keeps_bind keeps_session fun _ => keeps_get_bind fun _ => keeps_ensure_bind fun _ =>
    within_pure Kept.refl

theorem exec_authRecord {r : Except Err Auth} (h : exec authRecord world = (r, world')) :
    world' = world ∧ ∀ auth, r = .ok auth → world.auth = .value auth := by
  simp only [authRecord, exec_get_bind] at h
  rcases exec_lift_bind_cases h with ⟨e, -, rfl, rfl⟩ | ⟨found, hread, h⟩
  · exact ⟨rfl, by rintro _ ⟨⟩⟩
  cases found with
  | none =>
    simp only [exec_throw] at h
    cases h
    exact ⟨rfl, by rintro _ ⟨⟩⟩
  | some auth =>
    simp only [exec_pure] at h
    cases h
    refine ⟨rfl, ?_⟩
    rintro auth ⟨⟩
    unfold readAuth at hread
    split at hread
    · cases hread
    · cases hread
    · rename_i stored hstored
      split at hread <;> cases hread
      exact hstored

theorem keeps_authRecord : Within Kept authRecord := by
  intro world
  rw [(exec_authRecord (Prod.eta (exec authRecord world)).symm).1]
  exact .refl world

theorem keeps_setAttempts {attempts : PinPolicy.Attempts} :
    Kept world (setAttempts attempts world) :=
  .of_eq rfl rfl rfl

theorem keeps_resetAttempts : Within Kept (resetAttempts out) :=
  keeps_lift_bind fun _ => keeps_store fun _ => keeps_setAttempts

theorem keeps_checkPin {pin : Field Text} : Within Kept (checkPin env out pin) := by
  refine keeps_bind keeps_authRecord fun auth => keeps_get_bind fun _ =>
    keeps_lift_bind fun record =>
    keeps_ensure_bind fun _ => ?_
  split
  · exact keeps_resetAttempts
  · exact keeps_lift_bind fun _ => keeps_bind (keeps_store fun _ => keeps_setAttempts) fun _ =>
      within_throw Kept.refl

theorem keeps_settingUp : Within Kept (settingUp sid) :=
  keeps_get_bind fun _ => keeps_ensure_bind fun _ => keeps_bind keeps_authRecord fun _ =>
    within_ensure Kept.refl

theorem keeps_stateRecord : Within Kept (stateRecord env out) :=
  keeps_get_bind fun _ => within_lift Kept.refl

theorem kept_current {now : ℤ} : Kept world (setSessions (world.sessions.current now) world) :=
  .of_sessions fun entry h => Or.inr ⟨entry.2, List.mem_of_mem_filter h, rfl⟩

/-- A new token leaves the files alone, and opens at most the session it is for. -/
structure NewToken (out : Outside) (pairing : Option Pairing.Session) (world world' : World) :
    Prop where
  disk : world'.disk = world.disk
  auth : world'.auth = world.auth
  opened : ∀ token paired, Open token paired world' → Open token paired world ∨
    (pairing = some paired ∧ token = "p1.".toList ++ out.token)
  tagged : Tagged world → Tagged world'

theorem newToken_cases {r : Except Err Text} {pairing : Option Pairing.Session}
    (h : exec (newToken out pairing) world = (r, world')) : NewToken out pairing world world' := by
  have hcur : Kept world (setSessions (world.sessions.current out.now) world) := kept_current
  have hsame : NewToken out pairing world (setSessions (world.sessions.current out.now) world) :=
    ⟨rfl, rfl, fun token paired h => Or.inl (hcur.opened token paired h), hcur.tagged⟩
  simp only [newToken, exec_modify_bind, exec_get_bind] at h
  rcases exec_ensure_bind_cases h with ⟨-, rfl, rfl⟩ | ⟨-, h⟩
  · exact hsame
  rcases exec_bind_cases h with ⟨e, hauth, rfl⟩ | ⟨auth, u, hauth, hput⟩
  · rw [(exec_authRecord hauth).1]
    exact hsame
  rw [(exec_authRecord hauth).1] at hput
  simp only [exec_modify_bind, exec_pure] at hput
  cases hput
  refine ⟨rfl, rfl, ?_, fun ht => ?_⟩
  · rintro token paired ⟨item, hitem, hp⟩
    rcases Table.mem_put.1 hitem with ⟨hitem, -⟩ | he
    · exact Or.inl (hcur.opened token paired ⟨item, hitem, hp⟩)
    · cases he
      simp only at hp
      exact Or.inr ⟨hp, by simp [tokenText, hp]⟩
  · intro entry hentry hphone
    rcases Table.mem_put.1 hentry with ⟨hentry, -⟩ | rfl
    · exact hcur.tagged ht entry hentry hphone
    · cases pairing with
      | none =>
        have hplain := phoneToken_hex out.token
        rw [show tokenText out none = out.token from rfl, hplain] at hphone
        cases hphone
      | some paired => rintro ⟨⟩

theorem newToken_ok {pairing : Option Pairing.Session}
    (h : exec (newToken out pairing) world = (.ok token, world')) :
    token = tokenText out pairing := by
  simp only [newToken, exec_modify_bind, exec_get_bind] at h
  rcases exec_ensure_bind_cases h with ⟨-, h, -⟩ | ⟨-, h⟩
  · cases h
  rcases exec_bind_cases h with ⟨e, -, h⟩ | ⟨auth, u, -, h⟩
  · cases h
  simp only [exec_modify_bind, exec_pure] at h
  cases h
  rfl

theorem keeps_newToken : Within Kept (newToken out none) := by
  intro world
  obtain ⟨hdisk, hauth, hopen, htagged⟩ :=
    newToken_cases (Prod.eta (exec (newToken out none) world)).symm
  refine ⟨⟨fun token paired h => ?_, htagged⟩, fun _ => ⟨hauth, fun paired h => ?_⟩⟩
  · rcases hopen token paired h with h | ⟨h, -⟩
    · exact h
    · cases h
  · rw [Holds, hdisk]
    exact h

/-- A bootstrap PIN is used up only while no PIN is set. -/
theorem kept_consumeBootstrap {auth : Auth} (h : world.auth = .value auth) :
    Kept world (exec (consumeBootstrap out auth) world).2 := by
  unfold consumeBootstrap
  split
  · rename_i hunset
    rcases hx : exec _ world with ⟨r, world'⟩
    rcases store_bind_cases hx with ⟨-, -, rfl⟩ | ⟨-, hx⟩
    · exact .refl _
    simp only [exec_pure] at hx
    cases hx
    refine ⟨.of_eq rfl, ?_⟩
    rintro ⟨stored, hstored, hset⟩
    rw [h] at hstored
    cases hstored
    rw [hunset.1] at hset
    cases hset
  · exact .refl world

theorem keeps_unlock {pin : Field Text} : Within Kept (unlock env out pin) := by
  refine keeps_ensure_bind fun _ => keeps_bind keeps_checkPin fun _ => keeps_bind keeps_newToken
    fun token => within_bind_of Kept.trans keeps_authRecord fun _ auth world hauth => ?_
  obtain ⟨rfl, hvalue⟩ := exec_authRecord hauth
  exact related_bind Kept.trans (kept_consumeBootstrap (hvalue auth rfl)) fun _ =>
    keeps_bind keeps_stateRecord fun _ => keeps_get_bind fun _ => keeps_lift_bind fun _ =>
      within_pure Kept.refl

theorem keeps_lock {field : Field Text} : Within Kept (lock out field) := by
  refine keeps_bind keeps_session fun token => keeps_bind (fun world => ?_) fun _ =>
    within_pure Kept.refl
  exact kept_erase

theorem keeps_register {id credential name : Text} {created : ℤ} {client version : Field Text}
    {record : Pairing.Record}
    (h : Pairing.register env world.disk.pairs id credential name created client version =
      .ok record) :
    Kept world (setPairs record world) :=
  ⟨.of_eq rfl, fun _ => ⟨rfl, fun _ hh => Pairing.sessionCurrent_register h hh⟩⟩

theorem keeps_pairCreate {field : Field Text} {id credential name : Text}
    {client version : Field Text} :
    Within Kept (pairCreate env out field id credential name client version) := by
  refine keeps_bind keeps_ownerSession fun _ => keeps_ensure_bind fun _ => keeps_bind keeps_session
    fun _ world => ?_
  rw [exec_get_bind]
  rcases hx : exec _ world with ⟨r, world'⟩
  rcases exec_lift_bind_cases hx with ⟨e, -, -, rfl⟩ | ⟨record, hrecord, hx⟩
  · exact .refl _
  rcases store_bind_cases hx with ⟨-, -, rfl⟩ | ⟨-, hx⟩
  · exact .refl _
  simp only [exec_pure] at hx
  cases hx
  exact keeps_register hrecord

theorem exec_authenticate {r : Except Err Pairing.Session} {id credential : Text}
    (h : exec (authenticate env out id credential) world = (r, world')) :
    Kept world world' ∧ ∀ paired, r = .ok paired →
      Pairing.authenticate env world.disk.pairs id credential = .ok paired ∧ world' = world := by
  simp only [authenticate, exec_get_bind] at h
  split at h
  · rename_i paired hpaired
    simp only [exec_pure] at h
    cases h
    refine ⟨.refl _, ?_⟩
    rintro paired ⟨⟩
    exact ⟨hpaired, rfl⟩
  · simp only [exec_modify_bind, exec_throw] at h
    cases h
    exact ⟨.of_eq rfl rfl rfl, by rintro _ ⟨⟩⟩

theorem keeps_storeMetadata {id : Text} {client version : Field Text} :
    Within Kept (storeMetadata out id client version) := by
  intro world
  rw [storeMetadata, exec_get_bind]
  dsimp only
  split
  · exact .refl world
  · rw [exec_store]
    split
    · refine ⟨.of_eq rfl, fun _ => ⟨rfl, fun paired h => ?_⟩⟩
      exact Pairing.sessionCurrent_updateMetadata.trans h
    · exact .refl world

/-- A pairing is admitted by its credential, while a PIN is set. -/
theorem admitPairing_cases {r : Except Err Pairing.Session} {id credential : Text}
    {client version : Field Text}
    (h : exec (admitPairing env out id credential client version) world = (r, world')) :
    Kept world world' ∧ ∀ paired, r = .ok paired →
      Pairing.authenticate env world.disk.pairs id credential = .ok paired ∧ Changed world := by
  simp only [admitPairing, exec_modify_bind, exec_get_bind] at h
  have hopen : Kept world { world with failures := openWindow out.now world.failures } :=
    .of_eq rfl rfl rfl
  rcases exec_ensure_bind_cases h with ⟨-, rfl, rfl⟩ | ⟨-, h⟩
  · exact ⟨hopen, by rintro _ ⟨⟩⟩
  rcases exec_bind_cases h with ⟨e, hauth, rfl⟩ | ⟨auth, u, hauth, h⟩
  · rw [(exec_authRecord hauth).1]
    exact ⟨hopen, by rintro _ ⟨⟩⟩
  obtain ⟨rfl, hvalue⟩ := exec_authRecord hauth
  rcases exec_ensure_bind_cases h with ⟨-, rfl, rfl⟩ | ⟨hset, h⟩
  · exact ⟨hopen, by rintro _ ⟨⟩⟩
  rcases exec_bind_cases h with ⟨e, hx, rfl⟩ | ⟨paired, v, hx, h⟩
  · exact ⟨hopen.trans _ _ _ (exec_authenticate hx).1, by rintro _ ⟨⟩⟩
  obtain ⟨hkept, hok⟩ := exec_authenticate hx
  obtain ⟨hpaired, -⟩ := hok paired rfl
  have hrest := Within.exec (keeps_bind keeps_storeMetadata fun _ => within_pure Kept.refl) h
  refine ⟨(hopen.trans _ _ _ hkept).trans _ _ _ hrest, ?_⟩
  intro result hr
  rcases exec_bind_cases h with ⟨e, -, he⟩ | ⟨_, w, -, h⟩
  · rw [hr] at he
    cases he
  simp only [exec_pure] at h
  obtain ⟨h, -⟩ := Prod.mk.inj h
  rw [hr] at h
  cases h
  exact ⟨hpaired, auth, hvalue auth rfl, hset⟩

/-- The table gains at most the session of the pairing that is admitted. -/
theorem pairUnlock_cases {r : Except Err Reply} {id credential : Text} {client version : Field Text}
    (h : exec (pairUnlock env out id credential client version) world = (r, world')) :
    (Kept world world' ∨ ∃ paired, Pairing.authenticate env world.disk.pairs id
      credential = .ok paired ∧
      Changed world ∧ world'.auth = world.auth ∧ (∀ p, Holds p world → Holds p world') ∧
      (Tagged world → Tagged world') ∧
      ∀ token p, Open token p world' → Open token p world ∨
        (p = paired ∧ token = "p1.".toList ++ out.token)) := by
  rcases exec_ensure_bind_cases h with ⟨-, -, rfl⟩ | ⟨-, h⟩
  · exact Or.inl (.refl _)
  rcases exec_bind_cases h with ⟨e, hx, -⟩ | ⟨paired, u, hx, h⟩
  · exact Or.inl (admitPairing_cases hx).1
  obtain ⟨hkept, hok⟩ := admitPairing_cases hx
  obtain ⟨hpaired, hset⟩ := hok paired rfl
  obtain ⟨hauth, hholds⟩ := hkept.files hset
  have hu : ∀ v, NewToken out (some paired) u v → Kept v world' →
      world'.auth = world.auth ∧ (∀ p, Holds p world → Holds p world') ∧
      (Tagged world → Tagged world') ∧
      ∀ token p, Open token p world' → Open token p world ∨
        (p = paired ∧ token = "p1.".toList ++ out.token) := by
    intro v hv hrest
    have hset' : Changed v := by
      obtain ⟨auth, ha, hc⟩ := hkept.changed hset
      exact ⟨auth, hv.auth.trans ha, hc⟩
    obtain ⟨hra, hrh⟩ := hrest.files hset'
    refine ⟨(hra.trans hv.auth).trans hauth, fun p hp => hrh p ?_,
      fun ht => hrest.tagged (hv.tagged (hkept.tagged ht)), fun token p ho => ?_⟩
    · rw [Holds, hv.disk]
      exact hholds p hp
    · rcases hv.opened token p (hrest.opened token p ho) with ho | ⟨he, ht⟩
      · exact Or.inl (hkept.opened token p ho)
      · cases he
        exact Or.inr ⟨rfl, ht⟩
  rcases exec_bind_cases h with ⟨e, hx, -⟩ | ⟨token, v, hx, h⟩
  · exact Or.inr ⟨paired, hpaired, hset, hu world' (newToken_cases hx) (.refl _)⟩
  · have hrest := Within.exec (keeps_bind keeps_stateRecord fun _ => within_pure Kept.refl) h
    exact Or.inr ⟨paired, hpaired, hset, hu v (newToken_cases hx) hrest⟩

/-! The sessions alone, for the calls that change the PIN. -/

theorem shrinks_of_keeps {α : Type} {x : Call α} (h : Within Kept x) : Within Shrinks x :=
  h.mono fun _ _ h => h.toShrinks

theorem shrinks_bind {α β : Type} {x : Call α} {f : α → Call β} (hx : Within Shrinks x)
    (hf : ∀ a, Within Shrinks (f a)) : Within Shrinks (x >>= f) := within_bind Shrinks.trans hx hf

theorem shrinks_store {file : File} {write : World → World}
    (hw : ∀ world, (write world).sessions = world.sessions) :
    Within Shrinks (store out file write) :=
  within_bind Shrinks.trans (within_ensure Shrinks.refl) fun _ world => .of_eq (hw world)

theorem keeps_beginPin {pin : Field Text} {acceptance : License} :
    Within Kept (beginPin env out pin acceptance) :=
  keeps_get_bind fun _ => keeps_lift_bind fun _ => keeps_bind keeps_resetAttempts fun _ =>
    keeps_lift_bind fun _ => within_pure Kept.refl

theorem shrinks_storePin {pin : Field Text} {acceptance : License} :
    Within Shrinks (storePin env out pin acceptance) := by
  refine shrinks_bind (shrinks_of_keeps keeps_beginPin) fun auth => shrinks_bind
    (shrinks_store fun _ => rfl) fun _ => shrinks_bind (shrinks_store fun _ => rfl) fun _ world =>
    ?_
  refine ⟨?_, fun _ => nofun⟩
  rintro token paired ⟨item, hitem, -⟩
  cases hitem

/-- Revoking a pairing ends its sessions; the others keep their pairing. -/
theorem pairRevoke_cases {r : Except Err Reply} {field : Field Text} {id : Text}
    (h : exec (pairRevoke out field id) world = (r, world')) :
    Kept world world' ∨ (Shrinks world world' ∧ (Changed world → world'.auth = world.auth) ∧
      ∀ token paired, Open token paired world' → Holds paired world → Changed world →
        Holds paired world') := by
  rcases exec_bind_cases h with ⟨e, hx, -⟩ | ⟨sid, u, hx, h⟩
  · exact Or.inl (session_cases hx).1
  have hu := (session_cases hx).1
  rw [exec_get_bind] at h
  rcases exec_ensure_bind_cases h with ⟨-, -, rfl⟩ | ⟨-, h⟩
  · exact Or.inl hu
  rcases exec_ensure_bind_cases h with ⟨-, -, rfl⟩ | ⟨-, h⟩
  · exact Or.inl hu
  rcases exec_bind_cases h with ⟨e, hx, -⟩ | ⟨sid, v, hx, h⟩
  · exact Or.inl (hu.trans _ _ _ (session_cases hx).1)
  have hv := hu.trans _ _ _ (session_cases hx).1
  rw [exec_get_bind] at h
  rcases exec_lift_bind_cases h with ⟨e, -, -, rfl⟩ | ⟨record, hrecord, h⟩
  · exact Or.inl hv
  rcases exec_lift_bind_cases h with ⟨e, -, -, rfl⟩ | ⟨_, -, h⟩
  · exact Or.inl hv
  rcases store_bind_cases h with ⟨-, -, rfl⟩ | ⟨-, h⟩
  · exact Or.inl hv
  simp only [exec_modify_bind, exec_pure] at h
  cases h
  simp only [Pairing.revoke, bind_eq_ok, pure_eq_ok] at hrecord
  obtain ⟨-, -, rfl⟩ := hrecord
  refine Or.inr ⟨⟨fun token paired ho => ?_, fun ht entry hentry => ?_⟩, fun hc => (hv.files hc).1,
    fun token paired ho hh hc => ?_⟩
  · obtain ⟨item, hitem, hp⟩ := ho
    exact hv.opened token paired ⟨item, List.mem_of_mem_filter hitem, hp⟩
  · exact hv.tagged ht entry (List.mem_of_mem_filter hentry)
  · obtain ⟨item, hitem, hp⟩ := ho
    have hne : paired.id ≠ id := by
      have := (List.mem_filter.1 hitem).2
      simpa [hp] using this
    exact (Pairing.sessionCurrent_drop_ne hne).trans ((hv.files hc).2 paired hh)

/-- `pin.change` gets past its checks only while no PIN is set. -/
theorem exec_settingUp {r : Except Err Unit} (h : exec (settingUp sid) world = (r, world')) :
    world' = world ∧ (r = .ok () → ¬ Changed world) := by
  simp only [settingUp, exec_get_bind] at h
  rcases exec_ensure_bind_cases h with ⟨-, rfl, rfl⟩ | ⟨-, h⟩
  · exact ⟨rfl, by rintro ⟨⟩⟩
  rcases exec_bind_cases h with ⟨e, hx, rfl⟩ | ⟨auth, u, hx, hset⟩
  · exact ⟨(exec_authRecord hx).1, by rintro ⟨⟩⟩
  obtain ⟨rfl, hvalue⟩ := exec_authRecord hx
  rw [exec_ensure] at hset
  cases hset
  refine ⟨rfl, fun hr => ?_⟩
  rintro ⟨stored, hstored, hset⟩
  rw [hvalue auth rfl] at hstored
  cases hstored
  split at hr
  · rename_i hunset
    rw [hunset.1] at hset
    cases hset
  · cases hr

theorem kept_of_unset (hc : ¬ Changed world) (h : Shrinks world world') : Kept world world' :=
  ⟨h, fun hset => absurd hset hc⟩

theorem keeps_changePin {field pin : Field Text} {acceptance : License} :
    Within Kept (changePin env out field pin acceptance) := by
  refine keeps_bind keeps_ownerSession fun sid => within_bind_of Kept.trans keeps_settingUp
    fun world _ u hx => ?_
  obtain ⟨rfl, hunset⟩ := exec_settingUp hx
  refine kept_of_unset (hunset rfl) ?_
  have hrest : Within Shrinks (ensure (pin.value?.any pinShape.accepts = true) Err.pinMismatch >>=
      fun _ => locked out do
        let current ← session out field true
        settingUp current
        storePin env out pin acceptance
        let token ← newToken out none
        return Reply.token token) :=
    shrinks_bind (within_ensure Shrinks.refl) fun _ => shrinks_bind (within_ensure Shrinks.refl)
      fun _ => shrinks_bind (shrinks_of_keeps keeps_session) fun _ =>
        shrinks_bind (shrinks_of_keeps keeps_settingUp) fun _ => shrinks_bind shrinks_storePin
          fun _ => shrinks_bind (shrinks_of_keeps keeps_newToken) fun _ => within_pure Shrinks.refl
  exact hrest u

/-- No phone has a session. -/
structure Closed (world : World) : Prop where
  not_open : ∀ token paired, ¬ Open token paired world
  tagged : Tagged world

theorem closed_of_empty (h : world.sessions = []) : Closed world := by
  constructor
  · rintro token paired ⟨item, hitem, -⟩
    rw [h] at hitem
    cases hitem
  · intro entry hentry
    rw [h] at hentry
    cases hentry

theorem Closed.shrinks (h : Closed world) (hs : Shrinks world world') : Closed world' :=
  ⟨fun token paired ho => h.not_open token paired (hs.opened token paired ho), hs.tagged h.tagged⟩

theorem storePin_ok {pin : Field Text} {acceptance : License}
    (h : exec (storePin env out pin acceptance) world = (.ok (), world')) : Closed world' := by
  simp only [storePin, exec_bind_ok] at h
  obtain ⟨auth, u, -, _, v, -, _, w, -, h⟩ := h
  rw [exec_modify] at h
  cases h
  exact closed_of_empty rfl

/-- A changed PIN leaves no phone's session. -/
theorem changePin_ok {reply : Reply} {field pin : Field Text} {acceptance : License}
    (h : exec (changePin env out field pin acceptance) world = (.ok reply, world')) :
    Closed world' := by
  simp only [changePin, locked, exec_bind_ok] at h
  obtain ⟨_, _, -, _, _, -, _, _, -, _, _, -, _, _, -, _, _, -, _, u, hstore, _, v, htoken, h⟩ := h
  rw [exec_pure] at h
  cases h
  exact (storePin_ok hstore).shrinks (Within.exec (shrinks_of_keeps keeps_newToken) htoken)

theorem resetAttempts_ok (h : exec (resetAttempts out) world = (.ok (), world')) :
    out.stamp.Valid ∧ out.stores .attempts = true := by
  rcases exec_lift_bind_cases h with ⟨e, -, h, -⟩ | ⟨record, hrecord, h⟩
  · cases h
  rw [exec_store] at h
  split at h
  · rename_i hs
    simp only [PinPolicy.initial, bind_eq_ok, require_eq_ok] at hrecord
    exact ⟨hrecord.choose_spec.1, hs⟩
  · cases h

/-- What lets `foxhole.admin set_pin` reach its first write of pairing.json or auth.json. -/
structure Reaches (env : Env) (out : Outside) (world : World) (sid : Field Text) (access : Bool)
    (pin : Field Text) (acceptance : License) : Prop where
  sid : validSid sid = true
  access : access = true
  ubus : out.ubus = true
  lock : out.lock = true
  prepared : Succeeds (preparePin env out world pin acceptance)
  stamp : out.stamp.Valid
  attempts : out.stores .attempts = true
  handoff : Succeeds out.handoff

theorem beginPin_ok {pin : Field Text} {acceptance : License} {auth : Auth}
    (h : exec (beginPin env out pin acceptance) world = (.ok auth, world')) :
    Succeeds (preparePin env out world pin acceptance) ∧ out.stamp.Valid ∧
      out.stores .attempts = true ∧ Succeeds out.handoff := by
  rw [beginPin, exec_get_bind] at h
  rcases exec_lift_bind_cases h with ⟨e, -, h, -⟩ | ⟨prepared, hprepared, h⟩
  · cases h
  rcases exec_bind_cases h with ⟨e, -, h⟩ | ⟨_, u, hreset, h⟩
  · cases h
  rcases exec_lift_bind_cases h with ⟨e, -, h, -⟩ | ⟨_, hhandoff, -⟩
  · cases h
  obtain ⟨hstamp, hattempts⟩ := resetAttempts_ok hreset
  exact ⟨⟨prepared, hprepared⟩, hstamp, hattempts, ⟨_, hhandoff⟩⟩

/-- `set_pin` keeps everything, ends all sessions, or stops between its two files. -/
theorem adminPin_cases {r : Except Err Reply} {sid pin : Field Text} {access : Bool}
    {acceptance : License}
    (h : exec (adminPin env out sid access pin acceptance) world = (r, world')) :
    (Kept world world' ∧ ∃ e, r = .error e) ∨ Closed world' ∨
      (Reaches env out world sid access pin acceptance ∧ out.stores .pairs = true ∧
        out.stores .auth = false ∧ Shrinks world world' ∧
          (Changed world → world'.auth = world.auth) ∧
        ∃ e, r = .error e) := by
  rcases exec_ensure_bind_cases h with ⟨-, rfl, rfl⟩ | ⟨hsid, h⟩
  · exact Or.inl ⟨.refl _, _, rfl⟩
  rcases exec_ensure_bind_cases h with ⟨-, rfl, rfl⟩ | ⟨hubus, h⟩
  · exact Or.inl ⟨.refl _, _, rfl⟩
  rcases exec_ensure_bind_cases h with ⟨-, rfl, rfl⟩ | ⟨haccess, h⟩
  · exact Or.inl ⟨.refl _, _, rfl⟩
  rcases exec_ensure_bind_cases h with ⟨-, rfl, rfl⟩ | ⟨hlock, h⟩
  · exact Or.inl ⟨.refl _, _, rfl⟩
  simp only [storePin, bind_assoc] at h
  rcases exec_bind_cases h with ⟨e, hx, rfl⟩ | ⟨auth, u, hx, h⟩
  · exact Or.inl ⟨Within.exec keeps_beginPin hx, e, rfl⟩
  have hu : Kept world u := Within.exec keeps_beginPin hx
  obtain ⟨hprepared, hstamp, hattempts, hhandoff⟩ := beginPin_ok hx
  rcases store_bind_cases h with ⟨-, rfl, rfl⟩ | ⟨hpairs, h⟩
  · exact Or.inl ⟨hu, _, rfl⟩
  rcases store_bind_cases h with ⟨hauth, rfl, rfl⟩ | ⟨-, h⟩
  · exact Or.inr
      (Or.inr ⟨⟨hsid, haccess, hubus, hlock, hprepared, hstamp, hattempts, hhandoff⟩, hpairs,
      hauth, hu.toShrinks.trans _ _ _ (.of_eq rfl), fun hc => (hu.files hc).1, _, rfl⟩)
  · rw [exec_modify_bind, exec_pure] at h
    cases h
    exact Or.inr (Or.inl (closed_of_empty rfl))

theorem keeps_resettable {expected : ℕ} : Within Kept (resettable env out expected) :=
  keeps_bind keeps_authRecord fun _ => keeps_bind keeps_stateRecord fun _ => keeps_ensure_bind
    fun _ => keeps_ensure_bind fun _ => within_pure Kept.refl

theorem keeps_quiesce : Within Kept (quiesce out) :=
  keeps_lift_bind fun _ => keeps_ensure_bind fun _ =>
    keeps_bind (keeps_store fun _ => .of_eq rfl rfl rfl) fun _ =>
      keeps_resetAttempts

theorem wipe_closed {r : Except Err Text} {previous : Auth} {revision : ℕ}
    (h : exec (wipe out previous revision) world = (r, world')) : Closed world' := by
  rw [wipe, exec_modify_bind] at h
  have hclosed : Closed (setSessions [] world) := closed_of_empty rfl
  refine hclosed.shrinks (Within.exec ?_ h)
  refine shrinks_bind (shrinks_store fun _ => rfl) fun _ =>
    shrinks_bind (shrinks_store fun _ => rfl)
    fun _ => shrinks_bind (shrinks_store fun _ => rfl) fun _ =>
      shrinks_bind (shrinks_store fun _ => rfl) fun _ => shrinks_bind (within_ensure Shrinks.refl)
        fun _ => within_bind_of Shrinks.trans (shrinks_of_keeps keeps_newToken)
          fun u token v htoken => ?_
  obtain rfl := newToken_ok htoken
  rw [exec_modify_bind, exec_pure]
  exact (kept_put_none (phoneToken_hex out.token) rfl).toShrinks

/-- A reset ends all sessions before it writes. -/
theorem setupReset_cases {r : Except Err Reply} {field : Field Text} {revision : Field ℤ}
    {confirm : Field Bool}
    (h : exec (setupReset env out field revision confirm) world = (r, world')) :
    (Kept world world' ∧ ∃ e, r = .error e) ∨ Closed world' := by
  rcases exec_bind_cases h with ⟨e, hx, rfl⟩ | ⟨sid, u, hx, h⟩
  · exact Or.inl ⟨Within.exec keeps_ownerSession hx, e, rfl⟩
  have hu : Kept world u := Within.exec keeps_ownerSession hx
  rcases exec_ensure_bind_cases h with ⟨-, rfl, rfl⟩ | ⟨-, h⟩
  · exact Or.inl ⟨hu, _, rfl⟩
  rcases exec_lift_bind_cases h with ⟨e, -, rfl, rfl⟩ | ⟨expected, -, h⟩
  · exact Or.inl ⟨hu, _, rfl⟩
  rcases exec_ensure_bind_cases h with ⟨-, rfl, rfl⟩ | ⟨-, h⟩
  · exact Or.inl ⟨hu, _, rfl⟩
  rcases exec_bind_cases h with ⟨e, hx, rfl⟩ | ⟨sid, v, hx, h⟩
  · exact Or.inl ⟨hu.trans _ _ _ (Within.exec keeps_ownerSession hx), e, rfl⟩
  have hv := hu.trans _ _ _ (Within.exec keeps_ownerSession hx)
  rcases exec_bind_cases h with ⟨e, hx, rfl⟩ | ⟨⟨previous, state⟩, w, hx, h⟩
  · exact Or.inl ⟨hv.trans _ _ _ (Within.exec keeps_resettable hx), e, rfl⟩
  have hw := hv.trans _ _ _ (Within.exec keeps_resettable hx)
  rcases exec_bind_cases h with ⟨e, hx, rfl⟩ | ⟨_, x, hx, h⟩
  · exact Or.inl ⟨hw.trans _ _ _ (Within.exec keeps_quiesce hx), e, rfl⟩
  rcases exec_bind_cases h with ⟨e, hx, rfl⟩ | ⟨token, y, hx, h⟩
  · exact Or.inr (wipe_closed hx)
  · rw [exec_pure] at h
    cases h
    exact Or.inr (wipe_closed hx)

end Foxhole.Sessions
