import Foxhole.Lib.Trace
import Foxhole.SessionCalls
import Foxhole.StateInvariant

/-! A phone's session lasts no longer than its pairing. -/
namespace Foxhole.Sessions
open Check Text Command Trace

variable {env : Env} {out : Outside} {world world' : World} {token sid : Text}
  {paired : Pairing.Session}

abbrev Label := Act × Outside

/-- The call puts the token into the table, for the pairing it has authenticated. -/
def Issues (env : Env) (world : World) (label : Label) (token : Text) (paired : Pairing.Session) :
    Prop :=
  ∃ id credential client version, label.1 = .pairUnlock id credential client version ∧
    Pairing.authenticate env world.disk.pairs id credential = .ok paired ∧
    token = "p1.".toList ++ label.2.token

/-- The calls that set the PIN, or reset it with everything else. -/
def Act.setsPin : Act → Bool
  | .changePin .. | .adminPin .. | .setupReset .. => true
  | _ => false

/-- A PIN change or a reset happens: the call returns, or it has written auth.json. -/
def Resets (env : Env) (world : World) (label : Label) : Prop :=
  label.1.setsPin = true ∧
    (Succeeds (exec (perform env label.2 label.1) world).1 ∨
      (exec (perform env label.2 label.1) world).2.auth ≠ world.auth)

/-- `set_pin` has emptied pairing.json when its write of auth.json fails, and a phone has a
session. -/
def Torn (env : Env) (world : World) (label : Label) : Prop :=
  ∃ sid access pin acceptance, label.1 = .adminPin sid access pin acceptance ∧
    Reaches env label.2 world sid access pin acceptance ∧ label.2.stores .pairs = true ∧
    label.2.stores .auth = false ∧ ∃ token paired, Open token paired world

/-- What a call leaves of a phone's session that it does not end. -/
structure Survives (env : Env) (world : World) (label : Label) (world' : World)
    (paired : Pairing.Session) : Prop where
  auth : world'.auth = world.auth
  notReset : ¬ Resets env world label
  holds : ¬ Torn env world label → Holds paired world → Holds paired world'

variable {label : Label}

/-- What holds of a call whose phones' sessions and files are kept. -/
theorem survives_of_kept {r : Except Err Reply}
    (h : exec (perform env label.2 label.1) world = (r, world')) (hk : Kept world world')
    (hpin : label.1.setsPin = true → ∃ e, r = .error e) (hc : Changed world) :
    Survives env world label world' paired where
  auth := (hk.files hc).1
  notReset := by
    rintro ⟨hact, hreset⟩
    obtain ⟨e, rfl⟩ := hpin hact
    rw [h] at hreset
    rcases hreset with hs | hne
    · exact not_succeeds_error hs
    · exact hne (hk.files hc).1
  holds := fun _ => (hk.files hc).2 paired

/-- A session behind a step is issued by it, or was there and survives it. -/
theorem open_step (h : Step env world label world') (ho : Open token paired world') :
    (Issues env world label token paired ∧ Changed world' ∧ Holds paired world') ∨
      (Open token paired world ∧ (Changed world → Survives env world label world' paired)) := by
  rcases hx : exec (perform env label.2 label.1) world with ⟨r, w⟩
  obtain rfl : w = world' := by
    unfold Step at h
    rw [hx] at h
    exact h
  have hkept : Kept world w → (label.1.setsPin = true → ∃ e, r = .error e) →
      Open token paired world ∧ (Changed world → Survives env world label w paired) :=
    fun hk hpin => ⟨hk.opened token paired ho, fun hc => survives_of_kept hx hk hpin hc⟩
  obtain ⟨act, out⟩ := label
  cases act with
  | unlock pin => exact Or.inr (hkept (Within.exec keeps_unlock hx) nofun)
  | lock field => exact Or.inr (hkept (Within.exec keeps_lock hx) nofun)
  | other field =>
    have hk : Within Kept (perform env out (.other field)) :=
      keeps_bind keeps_session fun _ => within_pure Kept.refl
    exact Or.inr (hkept (Within.exec hk hx) nofun)
  | pairCreate field id credential name client version =>
    have hk : Within Kept (perform env out (.pairCreate field id credential name client version)) :=
      keeps_lift_bind fun _ => keeps_pairCreate
    exact Or.inr (hkept (Within.exec hk hx) nofun)
  | pairUnlock id credential client version =>
    rcases pairUnlock_cases hx with hk | ⟨admitted, hadmitted, hset, hauth, hholds, -, hopen⟩
    · exact Or.inr (hkept hk nofun)
    rcases hopen token paired ho with hold | ⟨rfl, ht⟩
    · exact Or.inr ⟨hold, fun _ => ⟨hauth, (fun hr => nomatch hr.1), fun _ => hholds paired⟩⟩
    · obtain ⟨auth, ha, hc⟩ := hset
      exact Or.inl
        ⟨⟨id, credential, client, version, rfl, hadmitted, ht⟩, ⟨auth, hauth.trans ha, hc⟩,
        hholds paired (Pairing.authenticate_ok hadmitted).2⟩
  | pairRevoke field id =>
    rcases pairRevoke_cases hx with hk | ⟨hshrinks, hauth, hholds⟩
    · exact Or.inr (hkept hk nofun)
    · exact Or.inr ⟨hshrinks.opened token paired ho, fun hc => ⟨hauth hc, (fun hr => nomatch hr.1),
        fun _ hh => hholds token paired ho hh hc⟩⟩
  | changePin field pin acceptance =>
    refine Or.inr (hkept (Within.exec keeps_changePin hx) fun _ => ?_)
    cases r with
    | error e => exact ⟨e, rfl⟩
    | ok reply => exact absurd ho ((changePin_ok hx).not_open token paired)
  | adminPin sid access pin acceptance =>
    rcases adminPin_cases hx with
      ⟨hk, he⟩ | hclosed | ⟨hreaches, hpairs, hstore, hshrinks, hauth, he⟩
    · exact Or.inr (hkept hk fun _ => he)
    · exact absurd ho (hclosed.not_open token paired)
    · have hold := hshrinks.opened token paired ho
      refine Or.inr ⟨hold, fun hc => ⟨hauth hc, ?_, fun htorn => ?_⟩⟩
      · rintro ⟨-, hreset⟩
        obtain ⟨e, rfl⟩ := he
        rw [hx] at hreset
        rcases hreset with hs | hne
        · exact not_succeeds_error hs
        · exact hne (hauth hc)
      · exact absurd
          ⟨sid, access, pin, acceptance, rfl, hreaches, hpairs, hstore, token, paired, hold⟩
          htorn
  | setupReset field revision confirm =>
    rcases exec_lift_bind_cases hx with ⟨e, -, rfl, rfl⟩ | ⟨_, -, hreset⟩
    · exact Or.inr (hkept (.refl _) fun _ => ⟨e, rfl⟩)
    rcases setupReset_cases hreset with ⟨hk, he⟩ | hclosed
    · exact Or.inr (hkept hk fun _ => he)
    · exact absurd ho (hclosed.not_open token paired)

/-- A `pair.unlock` of the run has issued the token, and every step since has met the condition. -/
def IssuedSince (env : Env) (C : World → Label → Prop) (start : World) (labels : List Label)
    (world : World) (token : Text) (paired : Pairing.Session) : Prop :=
  ∃ before label after issuing issued, labels = before ++ label :: after ∧
    Run (Step env) start before issuing ∧ Issues env issuing label token paired ∧
    Step env issuing label issued ∧ Run (Guarded C (Step env)) issued after world

variable {C : World → Label → Prop} {start : World} {labels : List Label}

theorem issuedSince_now (hrun : Run (Step env) start labels world)
    (hi : Issues env world label token paired) (h : Step env world label world') :
    IssuedSince env C start (labels ++ [label]) world' token paired :=
  ⟨labels, label, [], world, world', rfl, hrun, hi, h, .refl _⟩

theorem IssuedSince.step (hi : IssuedSince env C start labels world token paired)
    (h : Step env world label world') (hc : C world label) :
    IssuedSince env C start (labels ++ [label]) world' token paired := by
  obtain ⟨before, issue, after, issuing, issued, rfl, hrun, hissue, hstep, hafter⟩ := hi
  refine ⟨before, issue, after ++ [label], issuing, issued, by simp, hrun, hissue, hstep, ?_⟩
  exact hafter.stepR ⟨hc, h⟩

/-- The record holds the pairing, and no PIN change or reset happens. -/
def Backed (env : Env) (paired : Pairing.Session) (world : World) (label : Label) : Prop :=
  Holds paired world ∧ ¬ Resets env world label

/-- The token was issued for the pairing, which the record has held at every point since, and no
PIN change or reset has happened since. -/
def Fenced (env : Env) (start : World) (labels : List Label) (world : World) (token : Text)
    (paired : Pairing.Session) : Prop :=
  IssuedSince env (Backed env paired) start labels world token paired ∧ Holds paired world

/-- In a run without a torn PIN change every phone's session is fenced. -/
theorem open_fenced (hstart : start.sessions = [])
    (hrun : Run (Guarded (fun world label => ¬ Torn env world label) (Step env)) start labels world)
    (ho : Open token paired world) :
    Fenced env start labels world token paired ∧ Changed world := by
  refine Run.grow (P := fun labels world => ∀ token paired, Open token paired world →
    Fenced env start labels world token paired ∧ Changed world) ?_ ?_ hrun token paired ho
  · intro token paired ho
    exact absurd ho ((closed_of_empty hstart).not_open token paired)
  · rintro labels u label v hrun ih ⟨htorn, hstep⟩ token paired ho
    rcases open_step hstep ho with ⟨hissues, hset, hholds⟩ | ⟨hold, hsurvives⟩
    · exact ⟨⟨issuedSince_now hrun.of_guarded hissues hstep, hholds⟩, hset⟩
    · obtain ⟨⟨hsince, hholds⟩, hset⟩ := ih token paired hold
      have hs := hsurvives hset
      obtain ⟨auth, ha, hc⟩ := hset
      exact ⟨⟨hsince.step hstep ⟨hholds, hs.notReset⟩, hs.holds htorn hholds⟩, auth,
        hs.auth.trans ha, hc⟩

/-- In every run a phone's session was issued by a `pair.unlock`. -/
theorem open_issued (hstart : start.sessions = []) (hrun : Run (Step env) start labels world)
    (ho : Open token paired world) :
    IssuedSince env (fun _ _ => True) start labels world token paired := by
  refine Run.grow (P := fun labels world => ∀ token paired, Open token paired world →
    IssuedSince env (fun _ _ => True) start labels world token paired) ?_ ?_ hrun token paired ho
  · intro token paired ho
    exact absurd ho ((closed_of_empty hstart).not_open token paired)
  · intro labels u label v hrun ih hstep token paired ho
    rcases open_step hstep ho with ⟨hissues, -, -⟩ | ⟨hold, -⟩
    · exact issuedSince_now hrun hissues hstep
    · exact (ih token paired hold).step hstep trivial

/-! What a phone's token does not open. -/

theorem tagged_step (h : Step env world label world') (ht : Tagged world) : Tagged world' := by
  rcases hx : exec (perform env label.2 label.1) world with ⟨r, w⟩
  obtain rfl : w = world' := by
    unfold Step at h
    rw [hx] at h
    exact h
  obtain ⟨act, out⟩ := label
  cases act with
  | unlock pin => exact (Within.exec keeps_unlock hx).tagged ht
  | lock field => exact (Within.exec keeps_lock hx).tagged ht
  | other field =>
    have hk : Within Kept (perform env out (.other field)) :=
      keeps_bind keeps_session fun _ => within_pure Kept.refl
    exact (Within.exec hk hx).tagged ht
  | pairCreate field id credential name client version =>
    have hk : Within Kept (perform env out (.pairCreate field id credential name client version)) :=
      keeps_lift_bind fun _ => keeps_pairCreate
    exact (Within.exec hk hx).tagged ht
  | pairUnlock id credential client version =>
    rcases pairUnlock_cases hx with hk | ⟨_, -, -, -, -, htagged, -⟩
    · exact hk.tagged ht
    · exact htagged ht
  | pairRevoke field id =>
    rcases pairRevoke_cases hx with hk | ⟨hshrinks, -, -⟩
    · exact hk.tagged ht
    · exact hshrinks.tagged ht
  | changePin field pin acceptance => exact (Within.exec keeps_changePin hx).tagged ht
  | adminPin sid access pin acceptance =>
    rcases adminPin_cases hx with ⟨hk, -⟩ | hclosed | ⟨-, -, -, hshrinks, -⟩
    · exact hk.tagged ht
    · exact hclosed.tagged
    · exact hshrinks.tagged ht
  | setupReset field revision confirm =>
    rcases exec_lift_bind_cases hx with ⟨e, -, rfl, rfl⟩ | ⟨_, -, hreset⟩
    · exact ht
    rcases setupReset_cases hreset with ⟨hk, -⟩ | hclosed
    · exact hk.tagged ht
    · exact hclosed.tagged

theorem tagged_run (hstart : start.sessions = []) (h : Run (Step env) start labels world) :
    Tagged world :=
  h.invariant (fun _ _ _ ht hstep => tagged_step hstep ht) (closed_of_empty hstart).tagged

/-- Behind a session of a phone the table names its pairing. -/
theorem session_pairing {allowSetup : Bool} (ht : Tagged world) (hp : phoneToken token = true)
    (h : exec (session out (.value token) allowSetup) world = (.ok sid, world')) :
    sid = token ∧ ∃ paired, pairingOf world' sid = some paired ∧ Open token paired world := by
  obtain ⟨hkept, hok⟩ := session_cases h
  obtain ⟨hfield, hfound, -⟩ := hok sid rfl
  cases hfield
  obtain ⟨item, hitem⟩ := Option.isSome_iff_exists.1 hfound
  have hmem := Table.find_mem hitem
  obtain ⟨paired, hpaired⟩ := Option.ne_none_iff_exists'.1 (hkept.tagged ht _ hmem hp)
  exact ⟨rfl, paired, by simpa [pairingOf, hitem] using hpaired, hkept.opened token paired
    ⟨item, hmem, hpaired⟩⟩

theorem ownerSession_phone {allowSetup : Bool} (ht : Tagged world) (hp : phoneToken token = true) :
    exec (ownerSession out (.value token) allowSetup) world ≠ (.ok sid, world') := by
  intro h
  rcases exec_bind_cases h with ⟨e, -, h⟩ | ⟨t, u, hsession, hrest⟩
  · cases h
  obtain ⟨rfl, paired, hpairing, -⟩ := session_pairing ht hp hsession
  rw [exec_get_bind] at hrest
  rcases exec_ensure_bind_cases hrest with ⟨-, h, -⟩ | ⟨hnone, -⟩
  · cases h
  · rw [hpairing] at hnone
    cases hnone

theorem ownerOnly_fails (ht : Tagged world) (hp : phoneToken token = true)
    (hact : label.1.ownerOnly = true) (htoken : label.1.token = .value token) :
    ¬ Succeeds (exec (perform env label.2 label.1) world).1 := by
  rintro ⟨reply, hreply⟩
  have hx : exec (perform env label.2 label.1) world =
      (.ok reply, (exec (perform env label.2 label.1) world).2) := Prod.ext hreply rfl
  generalize (exec (perform env label.2 label.1) world).2 = world' at hx
  obtain ⟨act, out⟩ := label
  cases act with
  | pairCreate field id credential name client version =>
    obtain rfl : field = .value token := htoken
    simp only [perform, guarded, pairCreate, exec_bind_ok] at hx
    obtain ⟨_, u, hguard, sid, v, howner, -⟩ := hx
    obtain ⟨-, rfl⟩ := Prod.mk.inj (exec_lift.symm.trans hguard)
    exact ownerSession_phone ht hp howner
  | changePin field pin acceptance =>
    obtain rfl : field = .value token := htoken
    simp only [perform, changePin, exec_bind_ok] at hx
    obtain ⟨sid, v, howner, -⟩ := hx
    exact ownerSession_phone ht hp howner
  | setupReset field revision confirm =>
    obtain rfl : field = .value token := htoken
    simp only [perform, guarded, setupReset, exec_bind_ok] at hx
    obtain ⟨_, u, hguard, sid, v, howner, -⟩ := hx
    obtain ⟨-, rfl⟩ := Prod.mk.inj (exec_lift.symm.trans hguard)
    exact ownerSession_phone ht hp howner
  | _ => cases hact

/-- A phone revokes no pairing but its own. -/
theorem pairRevoke_own {id : Text} (ht : Tagged world) (hp : phoneToken token = true)
    (h : Succeeds (exec (pairRevoke out (.value token) id) world).1) :
    ∃ paired, paired.id = id ∧ Open token paired world := by
  obtain ⟨reply, hreply⟩ := h
  have hx : exec (pairRevoke out (.value token) id) world =
      (.ok reply, (exec (pairRevoke out (.value token) id) world).2) := Prod.ext hreply rfl
  rcases exec_bind_cases hx with ⟨e, -, h⟩ | ⟨sid, u, hsession, hrest⟩
  · cases h
  obtain ⟨rfl, paired, hpairing, hopen⟩ := session_pairing ht hp hsession
  rw [exec_get_bind] at hrest
  rcases exec_ensure_bind_cases hrest with ⟨-, h, -⟩ | ⟨hid, -⟩
  · cases h
  · rw [hpairing] at hid
    exact ⟨paired, by simpa using hid, hopen⟩

/-- Unless a PIN change tears, a phone's token is accepted only while its pairing has held since the
`pair.unlock` that issued it, with no PIN change or reset in between. In every run it opens none of
the owner's calls, and revokes no other pairing. -/
theorem session_fence (hstart : start.sessions = []) :
    (∀ labels world,
      Run (Guarded (fun world label => ¬ Torn env world label) (Step env)) start labels world →
      ∀ out token allowSetup, phoneToken token = true →
      Succeeds (exec (session out (.value token) allowSetup) world).1 →
      ∃ paired, Open token paired world ∧ Fenced env start labels world token paired) ∧
    (∀ labels world, Run (Step env) start labels world →
      ∀ (label : Label) token, label.1.token = .value token → phoneToken token = true →
      Succeeds (exec (perform env label.2 label.1) world).1 →
      label.1.ownerOnly = false ∧ ∀ id, label.1 = .pairRevoke (.value token) id →
        ∃ paired, paired.id = id ∧ Open token paired world ∧
          IssuedSince env (fun _ _ => True) start labels world token paired) := by
  constructor
  · rintro labels world hrun out token allowSetup hp ⟨sid, hsid⟩
    have ht := tagged_run hstart hrun.of_guarded
    obtain ⟨-, paired, -, hopen⟩ := session_pairing ht hp (Prod.ext hsid rfl)
    exact ⟨paired, hopen, (open_fenced hstart hrun hopen).1⟩
  · intro labels world hrun label token htoken hp hs
    have ht := tagged_run hstart hrun
    refine ⟨?_, fun id hact => ?_⟩
    · by_contra hact
      exact ownerOnly_fails ht hp (by simpa using hact) htoken hs
    · rw [hact] at hs
      obtain ⟨paired, hid, hopen⟩ := pairRevoke_own ht hp hs
      exact ⟨paired, hid, hopen, open_issued hstart hrun hopen⟩

/-! A run in which `set_pin` tears. -/

def salted : Text := List.replicate 32 '0' ++ ":123456".toList

def credential : Text := List.replicate 64 '1'

/-- SHA-256 on the inputs of the run. -/
def runDigest (t : Text) : Text :=
  if t = salted then "3dd0407a8a5c9891a59b40c107507497b56d705e2d8fd87dd5eae76a74db17e9".toList
  else if t = credential then
    "3138bb9bc78df27c473ecfd1410f7bd45ebac1f59cf3ff9cfe4db77aab7aedd3".toList
  else "101415fbdabdef5ace7af502ecf2f109e2c5080cbe8e3e33aa87acbba4a6911d".toList

def runEnv : Env := { Rpc.plainEnv with sha256 := runDigest }

def ownerAuth : Auth where
  salt := List.replicate 32 '0'
  hash := runDigest salted
  changed := true

/-- A router whose owner has set a PIN. -/
def ownerWorld : World where
  disk := { state := Model.defaults.raw }
  auth := .value ownerAuth

def hexText (n : ℕ) (c : Char) (h : isHex c = true) : Hex n :=
  ⟨List.replicate n c, Regex.accepts_rep_cls.2 ⟨by simp, by simp [h]⟩⟩

theorem isHex_a : isHex 'a' = true := by decide

/-- A call that draws the token `c…c`; `stored` says whether auth.json can be written. -/
def runOutside (c : Char) (h : isHex c = true) (stored : Bool) : Outside :=
  { Rpc.plainOutside c h with
    user := "unknown".toList
    now := 1000
    stamp := ⟨5000, "00000000-0000-0000-0000-000000000000".toList⟩
    token := hexText 64 c h
    salt := hexText 32 '2' (by decide)
    lock := true
    guard := .ok ()
    handoff := .ok ()
    stores := fun file => file ≠ .auth || stored
    stops := true
    readsBack := true
    ubus := true }

def pairId : Text := "pair-".toList ++ List.replicate 32 '1'

def ownerToken : Text := List.replicate 64 'a'

def phoneTokenText : Text := "p1.".toList ++ List.replicate 64 'b'

def createPair : Label :=
  (.pairCreate (.value ownerToken) pairId credential "phone".toList .missing .missing,
    runOutside 'c' (by decide) true)

/-- The owner unlocks and pairs a phone, which opens a session. -/
def pairedRun : List Label :=
  [(.unlock (.value "123456".toList), runOutside 'a' (by decide) true), createPair,
    (.pairUnlock pairId credential .missing .missing, runOutside 'b' (by decide) true)]

/-- A PIN change that cannot store auth.json. -/
def tornPin : Label :=
  (.adminPin (.value (List.replicate 32 'd')) true (.value "654321".toList) {},
    runOutside 'd' (by decide) false)

/-- What a run leaves. -/
def after (env : Env) (world : World) (labels : List Label) : World :=
  labels.foldl (fun world label => (exec (perform env label.2 label.1) world).2) world

theorem run_after {labels : List Label} : Run (Step env) world labels (after env world labels) := by
  induction labels generalizing world with
  | nil => exact .refl world
  | cons label labels ih => exact .stepL rfl ih

theorem run_eq_after (h : Run (Step env) start labels world) : world = after env start labels := by
  induction h with
  | refl => rfl
  | stepL h _ ih =>
    subst h
    exact ih

theorem not_torn (h : label.1.setsPin = false) : ¬ Torn env world label := by
  rintro ⟨sid, access, pin, acceptance, hact, -⟩
  rw [hact] at h
  cases h

/-- A run that changes no PIN is not torn anywhere. -/
theorem run_whole (h : ∀ label ∈ labels, label.1.setsPin = false) :
    Run (Guarded (fun world label => ¬ Torn env world label) (Step env)) start labels
      (after env start labels) := by
  induction labels generalizing start with
  | nil => exact .refl start
  | cons label labels ih =>
    exact .stepL ⟨not_torn (h label List.mem_cons_self), rfl⟩
      (ih fun l hl => h l (List.mem_cons_of_mem _ hl))

def sessionAt (world : World) : Except Err Text :=
  (exec (session (runOutside 'e' (by decide) true) (.value phoneTokenText) false) world).1

theorem phone_fenced : ∃ paired, Fenced runEnv ownerWorld pairedRun
    (after runEnv ownerWorld pairedRun) phoneTokenText paired := by
  have haccepted : sessionAt (after runEnv ownerWorld pairedRun) = .ok phoneTokenText := by
    unfold runEnv ownerWorld ownerAuth runDigest salted
    -- the literals as lists of characters, so that the check need not decode them
    iterate 4 rw [String.toList_ofList]
    decide +kernel
  rw [sessionAt] at haccepted
  have hrun : ∀ label ∈ pairedRun, label.1.setsPin = false := by decide
  obtain ⟨paired, -, hf⟩ := (@session_fence runEnv ownerWorld rfl).1 pairedRun _ (run_whole hrun)
    _ phoneTokenText false (by decide) ⟨_, haccepted⟩
  exact ⟨paired, hf⟩

/-- The owner pairs the phone again with the credential it had. -/
def tornRun : List Label := pairedRun ++ [tornPin, createPair]

/-- After a torn PIN change the old session of the phone comes back with its pairing. -/
theorem torn_pin_revives : ¬ ∀ (env : Env) (start : World) labels world, start.sessions = [] →
    Run (Step env) start labels world → ∀ out token allowSetup, phoneToken token = true →
    Succeeds (exec (session out (.value token) allowSetup) world).1 →
    ∃ paired, Fenced env start labels world token paired := by
  intro h
  have haccepted : sessionAt (after runEnv ownerWorld tornRun) = .ok phoneTokenText := by
    unfold runEnv ownerWorld ownerAuth runDigest salted
    iterate 4 rw [String.toList_ofList]
    decide +kernel
  rw [sessionAt] at haccepted
  obtain ⟨paired, hsince, -⟩ := h runEnv ownerWorld tornRun _ rfl run_after _ phoneTokenText false
    (by decide) ⟨_, haccepted⟩
  obtain ⟨before, label, rest, issuing, issued, he, hbefore, hissues, hstep, hrest⟩ := hsince
  obtain ⟨id, credential, client, version, hact, -⟩ := hissues
  -- the only `pair.unlock` of the run is its third call
  have hsplit : before = pairedRun.take 2 ∧ label = pairedRun.getLast (by simp [pairedRun]) ∧
      rest = [tornPin, createPair] := by
    rcases before with _ | ⟨a, _ | ⟨b, _ | ⟨c, _ | ⟨d, _ | ⟨e, before⟩⟩⟩⟩⟩ <;>
      simp only [tornRun, pairedRun, List.cons_append, List.nil_append, List.cons.injEq] at he
    · rw [← he.1] at hact; cases hact
    · rw [← he.2.1] at hact; cases hact
    · obtain ⟨rfl, rfl, rfl, rfl⟩ := he
      exact ⟨rfl, rfl, rfl⟩
    · rw [← he.2.2.2.1] at hact; cases hact
    · rw [← he.2.2.2.2.1] at hact; cases hact
    · simp at he
  obtain ⟨rfl, rfl, rfl⟩ := hsplit
  obtain ⟨torn, htorn, hrest⟩ := run_cons.1 hrest
  obtain ⟨_, ⟨⟨hholds, -⟩, -⟩, -⟩ := run_cons.1 hrest
  -- between the torn change and the new pairing the record is empty
  have hworld : torn = after runEnv ownerWorld (pairedRun ++ [tornPin]) := by
    refine run_eq_after ?_
    have hpaired := (hbefore.stepR hstep).stepR htorn.2
    simpa [pairedRun] using hpaired
  have hempty : (after runEnv ownerWorld (pairedRun ++ [tornPin])).disk.pairs =
      Pairing.defaults := by
    unfold runEnv ownerWorld ownerAuth runDigest salted
    iterate 4 rw [String.toList_ofList]
    decide +kernel
  rw [Holds, hworld, hempty] at hholds
  cases hholds

end Foxhole.Sessions
