import Foxhole.SessionFence

/-! How often wrong PINs are compared within one boot, and that no record of failed attempts is
refused later. -/
namespace Foxhole.PinPolicy
open Check Text Command

/-- The failures since the last block, the tier, and where the block ends. -/
structure Throttle where
  failures : ℤ
  tier : ℤ
  blockedUntil : ℤ

/-- How long the block lasts that the next six failures lead to. -/
def pause (tier : ℤ) : ℤ := if tier = 0 then 60000 else 300000

def Throttle.next (s : Throttle) (now : ℤ) : Throttle :=
  if s.failures + 1 = 6 then ⟨0, if s.tier = 0 then 1 else 2, now + pause s.tier⟩
  else { s with failures := s.failures + 1 }

/-- Guesses compared at these times, one after the other. -/
def Spaced : Throttle → List ℤ → Prop
  | _, [] => True
  | s, now :: rest => s.blockedUntil ≤ now ∧ Spaced (s.next now) rest

/-- After the sixth failure comes a pause, and after each six that follow a long one. -/
theorem spaced_gap : ∀ {times : List ℤ} {s : Throttle} {n : ℕ}, s.failures = n → n ≤ 5 →
    Spaced s times → ∀ (k : ℕ) (a b : ℤ), times[6 * k + 5 - n]? = some a →
      times[6 * k + 6 - n]? = some b → a + (if k = 0 then pause s.tier else 300000) ≤ b
  | [], _, _, _, _, _, _, _, _, ha, _ => by simp at ha
  | now :: rest, s, n, hn, hle, ⟨_, hrest⟩, k, a, b, ha, hb => by
    by_cases hlast : n = 5
    · -- this guess begins the block
      subst hlast
      have hnext : s.next now = ⟨0, if s.tier = 0 then 1 else 2, now + pause s.tier⟩ :=
        if_pos (by rw [hn]; rfl)
      rw [hnext] at hrest
      rw [show 6 * k + 5 - 5 = 6 * k by omega] at ha
      rw [show 6 * k + 6 - 5 = 6 * k + 1 by omega, List.getElem?_cons_succ] at hb
      cases k with
      | zero =>
        obtain rfl : now = a := by simpa using ha
        cases rest with
        | nil => simp at hb
        | cons next later =>
          obtain rfl : next = b := by simpa using hb
          exact hrest.1
      | succ k =>
        rw [show 6 * (k + 1) = 6 * k + 5 + 1 by omega, List.getElem?_cons_succ] at ha
        rw [show 6 * (k + 1) = 6 * k + 6 - 0 by omega] at hb
        have hgap := spaced_gap (n := 0) rfl (by omega) hrest k a b ha hb
        rw [if_neg (Nat.succ_ne_zero k)]
        by_cases hk : k = 0
        · rw [if_pos hk, pause, if_neg (by dsimp only; split <;> decide)] at hgap
          exact hgap
        · rwa [if_neg hk] at hgap
    · have hnext : s.next now = { s with failures := s.failures + 1 } := if_neg (by omega)
      rw [hnext] at hrest
      rw [show 6 * k + 5 - n = 6 * k + 5 - (n + 1) + 1 by omega, List.getElem?_cons_succ] at ha
      rw [show 6 * k + 6 - n = 6 * k + 6 - (n + 1) + 1 by omega, List.getElem?_cons_succ] at hb
      exact spaced_gap (by simp [hn]) (by omega) hrest k a b ha hb

/-! What `initial`, `checked` and `failed` return. -/

/-- A record as it is written at a stamp. -/
structure Written (stamp : Stamp) (r : Attempts) : Prop where
  valid : r.Valid
  boot : r.bootId = stamp.boot
  last : r.lastUptimeMs = stamp.now

section Records
variable {stamp stamp' : Stamp} {value : Field Attempts} {r r' : Attempts}

theorem written_blank (h : stamp.Valid) : Written stamp (blank stamp) where
  valid := by
    obtain ⟨h0, hmax, hboot⟩ := h
    refine ⟨hboot, ?_, ?_, ?_, ?_, h0, hmax, ?_, ?_, fun _ => rfl⟩ <;> simp only [blank] <;> omega
  boot := rfl
  last := rfl

theorem written_initial (h : initial stamp = .ok r) : Written stamp r := by
  simp only [initial, bind_eq_ok, require_eq_ok, pure_eq_ok] at h
  obtain ⟨-, hvalid, rfl⟩ := h
  exact written_blank hvalid

/-- The record itself where it is of this boot, else a new one. -/
theorem checked_cases (h : checked value stamp = .ok r) : stamp.Valid ∧
    ((r = blank stamp ∧ ∀ old, value = .value old → old.Valid ∧ old.bootId ≠ stamp.boot) ∨
      ∃ old, value = .value old ∧ old.Valid ∧ old.bootId = stamp.boot ∧
        old.lastUptimeMs ≤ stamp.now ∧ r = { old with lastUptimeMs := stamp.now }) := by
  simp only [checked, bind_eq_ok, require_eq_ok] at h
  obtain ⟨-, hvalid, h⟩ := h
  refine ⟨hvalid, ?_⟩
  cases value with
  | missing =>
    simp only [pure_eq_ok] at h
    exact Or.inl ⟨h.symm, by simp⟩
  | invalid => simp at h
  | value old =>
    simp only [bind_eq_ok, require_eq_ok] at h
    obtain ⟨-, hold, h⟩ := h
    by_cases hboot : old.bootId ≠ stamp.boot
    · rw [if_pos hboot, pure_eq_ok] at h
      exact Or.inl ⟨h.symm, fun _ he => by cases he; exact ⟨hold, hboot⟩⟩
    · rw [if_neg hboot] at h
      simp only [bind_eq_ok, require_eq_ok, pure_eq_ok] at h
      obtain ⟨-, hlast, rfl⟩ := h
      exact Or.inr ⟨old, rfl, hold, not_not.1 hboot, hlast, rfl⟩

theorem written_checked (h : checked value stamp = .ok r) : Written stamp r := by
  obtain ⟨hstamp, ⟨rfl, -⟩ | ⟨old, -, hold, hboot, hlast, rfl⟩⟩ := checked_cases h
  · exact written_blank hstamp
  · obtain ⟨hshape, hf, hf5, ht, ht2, -, -, hb, hblock, htier⟩ := hold
    obtain ⟨h0, hmax, -⟩ := hstamp
    exact ⟨⟨hshape, hf, hf5, ht, ht2, h0, hmax, hb, by dsimp only; omega, htier⟩, hboot, rfl⟩

theorem written_fail (h : Written stamp r) : Written stamp (fail r stamp) := by
  obtain ⟨⟨hshape, hf, hf5, ht, ht2, h0, hmax, hb, hblock, htier⟩, hboot, hlast⟩ := h
  unfold fail
  by_cases hsix : r.failures + 1 = 6
  · rw [if_pos hsix]
    refine ⟨⟨hshape, le_rfl, by dsimp only; omega, ?_, ?_, h0, hmax, ?_, ?_, ?_⟩, hboot, hlast⟩ <;>
      dsimp only <;> split_ifs <;> omega
  · rw [if_neg hsix]
    exact ⟨⟨hshape, by dsimp only; omega, by dsimp only; omega, ht, ht2, h0, hmax, hb,
      hblock, htier⟩,
      hboot, hlast⟩

theorem written_failed (h : failed r stamp = .ok r') : Written stamp r' := by
  simp only [failed, bind_eq_ok] at h
  obtain ⟨result, hchecked, h⟩ := h
  have hresult := written_checked hchecked
  by_cases hblocked : remaining result stamp.now ≠ 0
  · rw [if_pos hblocked, pure_eq_ok] at h
    exact h ▸ hresult
  · rw [if_neg hblocked, pure_eq_ok] at h
    exact h ▸ written_fail hresult

/-- A record that was written is accepted at every later time, and by every other boot. -/
theorem Written.accepted (h : Written stamp r) (hstamp : stamp'.Valid)
    (hlater : stamp'.boot = stamp.boot → stamp.now ≤ stamp'.now) :
    ∃ r', checked (.value r) stamp' = .ok r' := by
  simp only [checked, bind_eq_ok, require_eq_ok]
  by_cases hboot : r.bootId ≠ stamp'.boot
  · exact ⟨blank stamp', (), hstamp, (), h.valid, by rw [if_pos hboot]; rfl⟩
  · have hle : r.lastUptimeMs ≤ stamp'.now :=
      h.last ▸ hlater ((not_not.1 hboot).symm.trans h.boot)
    refine ⟨{ r with lastUptimeMs := stamp'.now }, (), hstamp, (), h.valid, ?_⟩
    rw [if_neg hboot]
    simp only [bind_eq_ok, require_eq_ok]
    exact ⟨(), hle, rfl⟩

/-- Checking a record again at the same stamp changes nothing. -/
theorem checked_checked (h : checked value stamp = .ok r) : checked (.value r) stamp = .ok r := by
  have hw := written_checked h
  obtain ⟨hstamp, -⟩ := checked_cases h
  simp only [checked, bind_eq_ok, require_eq_ok]
  refine ⟨(), hstamp, (), hw.valid, ?_⟩
  rw [if_neg (not_not.2 hw.boot)]
  simp only [bind_eq_ok, require_eq_ok, pure_eq_ok]
  exact ⟨(), hw.last.le, by rw [← hw.last]⟩

theorem failed_checked (h : checked value stamp = .ok r) (hfree : remaining r stamp.now = 0) :
    failed r stamp = .ok (fail r stamp) := by
  simp only [failed, bind_eq_ok]
  refine ⟨r, checked_checked h, ?_⟩
  rw [if_neg (not_not.2 hfree)]
  rfl

theorem remaining_eq_zero {now : ℤ} : remaining r now = 0 ↔ r.blockedUntilUptimeMs ≤ now := by
  unfold remaining
  dsimp only
  split_ifs <;> omega

end Records

def Attempts.throttle (r : Attempts) : Throttle := ⟨r.failures, r.tier, r.blockedUntilUptimeMs⟩

theorem throttle_fail {r : Attempts} {stamp : Stamp} :
    (fail r stamp).throttle = r.throttle.next stamp.now := by
  unfold fail Throttle.next Attempts.throttle pause
  by_cases hsix : r.failures + 1 = 6 <;> by_cases ht : r.tier = 0 <;> simp [hsix, ht]

/-! Guesses, one after the other. -/

open Sessions

/-- A call of `check_pin`. -/
structure Guess where
  out : Sessions.Outside
  pin : Field Text

/-- The throttle that a record stands for in a boot. -/
def view (boot : Text) : Field Attempts → Throttle
  | .value r => if r.Valid ∧ r.bootId = boot then r.throttle else ⟨0, 0, 0⟩
  | _ => ⟨0, 0, 0⟩

/-- The guess is compared, and what comes of it is recorded. -/
def evaluated (w : World) (guess : Guess) : Bool :=
  match readAuth w, checked w.attempts guess.out.stamp with
  | .ok (some _), .ok record =>
    remaining record guess.out.stamp.now = 0 && guess.out.stores .attempts
  | _, _ => false

variable (env : Env)

def after (w : World) (guess : Guess) : World := (exec (checkPin env guess.out guess.pin) w).2

/-- When guesses are evaluated. -/
def times : World → List Guess → List ℤ
  | _, [] => []
  | w, guess :: rest =>
    (if evaluated w guess then [guess.out.stamp.now] else []) ++ times (after env w guess) rest

/-- No guess is the PIN. -/
def Wrong (w : World) (guess : Guess) : Prop :=
  ∀ auth, w.auth = .value auth → pinValid env auth guess.out.stamp guess.pin = false

section Runs
variable {env} {w : World} {guess : Guess} {boot : Text} {record : Attempts}

/-- What `check_pin` does up to the comparison. -/
theorem checkPin_cases :
    ((∃ e, exec (checkPin env guess.out guess.pin) w = (.error e, w)) ∧ evaluated w guess = false) ∨
    ∃ auth record, w.auth = .value auth ∧ readAuth w = .ok (some auth) ∧
      checked w.attempts guess.out.stamp = .ok record ∧
      remaining record guess.out.stamp.now = 0 ∧
      exec (checkPin env guess.out guess.pin) w =
        exec (if pinValid env auth guess.out.stamp guess.pin then resetAttempts guess.out
          else refusePin guess.out record) w := by
  unfold checkPin authRecord evaluated
  cases hauth : readAuth w with
  | error e => exact Or.inl ⟨⟨e, by simp [exec_bind, hauth]⟩, rfl⟩
  | ok found =>
    cases found with
    | none => exact Or.inl ⟨⟨.pinSetupRequired, by simp [exec_bind, hauth]⟩, rfl⟩
    | some auth =>
      cases hchecked : checked w.attempts guess.out.stamp with
      | error e => exact Or.inl ⟨⟨e, by simp [exec_bind, hauth, hchecked]⟩, rfl⟩
      | ok record =>
        by_cases hblocked : remaining record guess.out.stamp.now = 0
        · refine Or.inr
            ⟨auth, record, ?_, rfl, rfl, hblocked, by simp [exec_bind, hauth, hchecked, hblocked]⟩
          unfold readAuth at hauth
          cases hw : w.auth with
          | missing => simp [hw] at hauth
          | invalid => simp [hw] at hauth
          | value a =>
            simp only [hw] at hauth
            split at hauth <;> cases hauth
            rfl
        · exact Or.inl ⟨⟨.pinCooldown, by simp [exec_bind, hauth, hchecked, hblocked]⟩,
            by simp [hblocked]⟩

/-- A wrong guess is recorded as a failure, or changes nothing. -/
theorem after_cases (hwrong : Wrong env w guess) :
    (after env w guess = w ∧ evaluated w guess = false) ∨
    ∃ record, checked w.attempts guess.out.stamp = .ok record ∧
      remaining record guess.out.stamp.now = 0 ∧ evaluated w guess = true ∧
      after env w guess = setAttempts (fail record guess.out.stamp) w := by
  rcases @checkPin_cases env w guess with
    ⟨⟨e, h⟩, hev⟩ | ⟨auth, record, hauth, hread, hchecked, hfree, h⟩
  · exact Or.inl ⟨by rw [after, h], hev⟩
  · have hfailed := failed_checked hchecked hfree
    rw [if_neg (by simp [hwrong auth hauth])] at h
    unfold after evaluated
    rw [h, hread, hchecked]
    unfold refusePin Sessions.store
    cases hstores : guess.out.stores .attempts with
    | false => exact Or.inl (by simp [exec_bind, hfailed, hfree])
    | true => exact Or.inr ⟨record, rfl, hfree, by simp [hfree], by simp [exec_bind, hfailed]⟩

/-- In a block nothing is evaluated, and the block stays as it is. -/
theorem blocked_guess (hchecked : checked w.attempts guess.out.stamp = .ok record)
    (hblocked : remaining record guess.out.stamp.now ≠ 0) :
    evaluated w guess = false ∧ after env w guess = w := by
  rcases @checkPin_cases env w guess with
    ⟨⟨e, h⟩, hev⟩ | ⟨auth, other, -, -, hother, hfree, -⟩
  · exact ⟨hev, by rw [after, h]⟩
  · rw [hchecked] at hother
    cases hother
    exact absurd hfree hblocked

theorem view_checked (hboot : guess.out.stamp.boot = boot)
    (hchecked : checked w.attempts guess.out.stamp = .ok record) :
    view boot w.attempts = record.throttle := by
  obtain ⟨-, ⟨rfl, hother⟩ | ⟨old, hold, hvalid, hsame, -, rfl⟩⟩ := checked_cases hchecked
  · cases hw : w.attempts with
    | missing => rfl
    | invalid => rfl
    | value old => exact if_neg fun h => (hother old hw).2 (h.2.trans hboot.symm)
  · rw [hold]
    exact if_pos ⟨hvalid, hsame.trans hboot⟩

theorem view_fail (hboot : guess.out.stamp.boot = boot)
    (hchecked : checked w.attempts guess.out.stamp = .ok record) :
    view boot (setAttempts (fail record guess.out.stamp) w).attempts =
      (view boot w.attempts).next guess.out.stamp.now := by
  have hw := written_fail (written_checked hchecked)
  rw [view_checked hboot hchecked, ← throttle_fail]
  exact if_pos ⟨hw.valid, hw.boot.trans hboot⟩

theorem times_spaced : ∀ {guesses : List Guess} {w : World},
    (∀ guess ∈ guesses, guess.out.stamp.boot = boot) → (∀ guess ∈ guesses, Wrong env w guess) →
      Spaced (view boot w.attempts) (times env w guesses)
  | [], _, _, _ => trivial
  | guess :: rest, w, hboot, hwrong => by
    have hrest := fun g hg => hboot g (List.mem_cons_of_mem guess hg)
    have hwrongs := fun g hg => hwrong g (List.mem_cons_of_mem guess hg)
    rcases after_cases (hwrong guess List.mem_cons_self) with
      ⟨hafter, hev⟩ | ⟨record, hchecked, hfree, hev, hafter⟩
    · simp only [times, hev, hafter, Bool.false_eq_true, if_false, List.nil_append]
      exact times_spaced hrest hwrongs
    · simp only [times, hev, hafter, if_true, List.cons_append, List.nil_append]
      refine ⟨?_, ?_⟩
      · rw [view_checked (hboot guess List.mem_cons_self) hchecked]
        exact remaining_eq_zero.1 hfree
      · rw [← view_fail (hboot guess List.mem_cons_self) hchecked]
        exact times_spaced hrest hwrongs

theorem view_failures (w : World) :
    ∃ n : ℕ, (view boot w.attempts).failures = n ∧ n ≤ 5 ∧ (w.attempts = .missing → n = 0) := by
  cases hw : w.attempts with
  | missing => exact ⟨0, rfl, by decide, fun _ => rfl⟩
  | invalid => exact ⟨0, rfl, by decide, fun _ => rfl⟩
  | value r =>
    by_cases h : r.Valid ∧ r.bootId = boot
    · obtain ⟨-, hf, hf5, -⟩ := h.1
      refine ⟨r.failures.toNat, ?_, by omega, nofun⟩
      rw [view, if_pos h, Int.toNat_of_nonneg hf]
      rfl
    · exact ⟨0, by rw [view, if_neg h]; rfl, by decide, nofun⟩

theorem resetAttempts_unrecorded {out : Sessions.Outside} (h : out.stores .attempts = false)
    (hstamp : out.stamp.Valid) : exec (resetAttempts out) w = (.error .storageError, w) := by
  have hinitial : initial out.stamp = .ok (blank out.stamp) := by
    simp only [initial, bind_eq_ok, require_eq_ok]
    exact ⟨(), hstamp, rfl⟩
  simp [resetAttempts, Sessions.store, exec_bind, hinitial, h]

theorem refusePin_unrecorded {out : Sessions.Outside} (h : out.stores .attempts = false)
    (hchecked : checked w.attempts out.stamp = .ok record)
    (hfree : remaining record out.stamp.now = 0) :
    exec (refusePin out record) w = (.error .storageError, w) := by
  simp [refusePin, Sessions.store, exec_bind, failed_checked hchecked hfree, h]

/-- A guess whose result cannot be recorded is answered alike, whatever it is. -/
theorem unrecorded_alike {out : Sessions.Outside} (h : out.stores .attempts = false)
    (pin pin' : Field Text) : exec (checkPin env out pin) w = exec (checkPin env out pin') w := by
  unfold checkPin authRecord
  cases hauth : readAuth w with
  | error e => simp [exec_bind, hauth]
  | ok found =>
    cases found with
    | none => simp [exec_bind, hauth]
    | some auth =>
      cases hchecked : checked w.attempts out.stamp with
      | error e => simp [exec_bind, hauth, hchecked]
      | ok record =>
        by_cases hfree : remaining record out.stamp.now = 0
        · have hend : ∀ pin, exec (if pinValid env auth out.stamp pin then resetAttempts out
              else refusePin out record) w = (.error .storageError, w) := by
            intro pin
            split
            · exact resetAttempts_unrecorded h (checked_cases hchecked).1
            · exact refusePin_unrecorded h hchecked hfree
          simp [exec_bind, hauth, hchecked, hfree, hend]
        · simp [exec_bind, hauth, hchecked, hfree]

/-- Of the wrong guesses of one boot, those evaluated stop after the sixth for a minute at least,
and then after each six for five minutes; `n` failures may have been counted before. In a block
nothing is evaluated, a guess that cannot be recorded says nothing about the PIN, and no record
is refused later. -/
theorem pin_throttled (env : Env) (w : World) (boot : Text) :
    (∃ n : ℕ, n ≤ 5 ∧ (w.attempts = .missing → n = 0) ∧ ∀ guesses : List Guess,
      (∀ guess ∈ guesses, guess.out.stamp.boot = boot) → (∀ guess ∈ guesses, Wrong env w guess) →
      ∀ (k : ℕ) (a b : ℤ), (times env w guesses)[6 * k + 5 - n]? = some a →
        (times env w guesses)[6 * k + 6 - n]? = some b →
          a + (if k = 0 then 60000 else 300000) ≤ b) ∧
    (∀ (guess : Guess) (record : Attempts), checked w.attempts guess.out.stamp = .ok record →
      remaining record guess.out.stamp.now ≠ 0 →
        evaluated w guess = false ∧ after env w guess = w) ∧
    (∀ out : Sessions.Outside, out.stores .attempts = false → ∀ pin pin' : Field Text,
      exec (checkPin env out pin) w = exec (checkPin env out pin') w) ∧
    ∀ (stamp later : Stamp) (value : Field Attempts) (old record : Attempts),
      initial stamp = .ok record ∨ checked value stamp = .ok record ∨
        failed old stamp = .ok record →
      later.Valid → (later.boot = stamp.boot → stamp.now ≤ later.now) →
        ∃ r, checked (.value record) later = .ok r := by
  refine ⟨?_, fun _ _ => blocked_guess, fun _ => unrecorded_alike, ?_⟩
  · obtain ⟨n, hn, hle, hmissing⟩ := @view_failures boot w
    refine ⟨n, hle, hmissing, fun guesses hboot hwrong k a b ha hb => ?_⟩
    have hgap := spaced_gap hn hle (times_spaced hboot hwrong) k a b ha hb
    have hpause : 60000 ≤ pause (view boot w.attempts).tier := by
      unfold pause
      split <;> decide
    split at hgap <;> rename_i hk
    · rw [if_pos hk]
      omega
    · rw [if_neg hk]
      exact hgap
  · intro stamp later value old record hwritten hlater hle
    have hrecord : Written stamp record := by
      rcases hwritten with h | h | h
      · exact written_initial h
      · exact written_checked h
      · exact written_failed h
    exact hrecord.accepted hlater hle

end Runs

def bootText : Text := "00000000-0000-0000-0000-000000000000".toList

def wrongAt (now : ℤ) : Guess where
  out := { runOutside 'a' isHex_a true with stamp := ⟨now, bootText⟩ }
  pin := .value "000000".toList

/-- Six wrong PINs in six seconds, one in the block and one at its end. -/
def guessRun : List Guess := [1000, 2000, 3000, 4000, 5000, 6000, 65999, 66000].map wrongAt

theorem guessRun_times :
    times runEnv ownerWorld guessRun = [1000, 2000, 3000, 4000, 5000, 6000, 66000] := by
  unfold runEnv ownerWorld ownerAuth runDigest salted guessRun wrongAt bootText
  -- the literals as lists of characters, so that the check need not decode them
  iterate 6 rw [String.toList_ofList]
  decide +kernel

theorem wrongAt_wrong {now : ℤ} : Wrong runEnv ownerWorld (wrongAt now) := by
  have hhash : pinHash runEnv ownerAuth.salt "000000".toList ≠ ownerAuth.hash := by
    unfold runEnv ownerAuth runDigest salted
    iterate 5 rw [String.toList_ofList]
    decide +kernel
  intro auth hauth
  cases hauth
  simp only [pinValid, wrongAt, hhash, decide_false, Bool.and_false]

theorem guessRun_throttled : ∃ a b, (times runEnv ownerWorld guessRun)[5]? = some a ∧
    (times runEnv ownerWorld guessRun)[6]? = some b ∧ a + 60000 ≤ b := by
  obtain ⟨⟨n, -, hn, hgaps⟩, -⟩ := pin_throttled runEnv ownerWorld bootText
  obtain rfl := hn rfl
  refine ⟨6000, 66000, by rw [guessRun_times]; rfl, by rw [guessRun_times]; rfl,
    hgaps guessRun ?_ ?_ 0 6000 66000 (by rw [guessRun_times]; rfl) (by rw [guessRun_times]; rfl)⟩
  · simp [guessRun, wrongAt]
  · intro guess hg
    obtain ⟨now, -, rfl⟩ := List.mem_map.1 hg
    exact wrongAt_wrong

end Foxhole.PinPolicy
