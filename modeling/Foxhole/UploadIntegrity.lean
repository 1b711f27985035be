import Foxhole.RamUpload

/-! What the payload of an upload holds: the committed chunks, and at most a part of the pending
one behind them. Every call keeps that, wherever it is cut off. -/
namespace Foxhole.RamUpload
open Text Command Trace

/-- The journal's entry for data at an offset. -/
def chunkOf (sha256 : Text → Text) (x : ℕ × Text) : Chunk := ⟨x.1, x.2.length, sha256 x.2⟩

/-- Each chunk begins where the one before it ends. -/
def InOrder : ℕ → List (ℕ × Text) → Prop
  | _, [] => True
  | n, x :: rest => x.1 = n ∧ InOrder (n + x.2.length) rest

theorem inOrder_append {x : ℕ × Text} : ∀ {n : ℕ} {xs : List (ℕ × Text)},
    InOrder n (xs ++ [x]) ↔ InOrder n xs ∧ x.1 = n + (xs.map (·.2)).flatten.length
  | n, [] => by simp [InOrder]
  | n, y :: ys => by
    simp only [List.cons_append, InOrder, inOrder_append, List.map_cons, List.flatten_cons,
      List.length_append, and_assoc]
    rw [Nat.add_assoc]

/-- Where the committed chunks are. -/
inductive Stored (w : World) : Prop
  | file (tail : Text) (payload : w.payload = some (w.data ++ tail)) (torn : tail <+: w.pendingData)
    (clean : w.record.pending = none → tail = []) (archive : w.archive = none)
  | moved (payload : w.payload = none) (archive : w.archive = some w.data)
  | gone (payload : w.payload = none) (archive : w.archive = none)
    (late : w.record.expiresAtUptimeMs < w.now)

/-- Two copies of the journal that speak of the same file. -/
structure Upload.Same (v r : Upload) : Prop where
  manifest : v.manifest = r.manifest
  nextOffset : v.nextOffset = r.nextOffset
  last : v.last = r.last
  pending : v.pending = r.pending
  expires : v.expiresAtUptimeMs = r.expiresAtUptimeMs
  bootId : v.bootId = r.bootId

theorem Upload.Same.refl (v : Upload) : v.Same v := ⟨rfl, rfl, rfl, rfl, rfl, rfl⟩

/-- Other fields do not matter. -/
theorem Upload.Same.copy {v r : Upload} {phase : Phase} {failureReason : Option Err}
    {verifiedCandidate : Option Candidate} (h : v.Same r) :
    Upload.Same { v with
      phase := phase, failureReason := failureReason, verifiedCandidate := verifiedCandidate } r :=
  ⟨h.manifest, h.nextOffset, h.last, h.pending, h.expires, h.bootId⟩

theorem Upload.Same.symm {v r : Upload} (h : v.Same r) : r.Same v :=
  ⟨h.manifest.symm, h.nextOffset.symm, h.last.symm, h.pending.symm, h.expires.symm, h.bootId.symm⟩

theorem Upload.Same.trans {u v r : Upload} (h : u.Same v) (h' : v.Same r) : u.Same r :=
  ⟨h.manifest.trans h'.manifest, h.nextOffset.trans h'.nextOffset, h.last.trans h'.last,
    h.pending.trans h'.pending, h.expires.trans h'.expires, h.bootId.trans h'.bootId⟩

def Upload.Complete (value : Upload) : Prop := value.nextOffset = value.manifest.fileBytes

/-- device_finish has been here. -/
def Phase.finishing (phase : Phase) : Prop := phase = .verifying ∨ phase = .finished

/-- The copy of the journal that device_finish works on. -/
structure Upload.Finishing (sha256 : Text → Text) (v r : Upload) : Prop where
  same : v.Same r
  valid : v.Valid sha256
  complete : v.Complete
  phase : v.phase.finishing

section Invariant
variable {sha256 : Text → Text} {sent : ℕ × Text → Prop} {w : World}

variable (sha256 sent) in
structure Inv (w : World) : Prop where
  valid : w.record.Valid sha256
  bootId : w.record.bootId = w.bootId
  order : InOrder 0 w.committed
  origin : ∀ x ∈ w.committed, sent x
  nextOffset : w.record.nextOffset = w.data.length
  last : w.record.last = w.committed.getLast?.map (chunkOf sha256)
  pending : ∀ c ∈ w.record.pending,
    sent (c.offset, w.pendingData) ∧ c = chunkOf sha256 (c.offset, w.pendingData)
  stored : Stored w
  complete : w.record.phase.finishing → w.record.Complete
  expired : w.record.phase = .expired → w.record.expiresAtUptimeMs < w.now
  finishing : ∀ v ∈ w.finishing, v.Finishing sha256 w.record

theorem Begun.inv (h : Begun sha256 w) : Inv sha256 sent w where
  valid := h.valid
  bootId := h.bootId
  order := by rw [h.committed]; trivial
  origin := by simp [h.committed]
  nextOffset := by simp [World.data, h.committed, h.nextOffset]
  last := by simp [h.last, h.committed]
  pending := by simp [h.pending]
  stored := .file [] (by simp [World.data, h.payload, h.committed]) (List.nil_prefix) (fun _ => rfl)
    h.archive
  complete := by rintro (hp | hp) <;> rw [h.phase] at hp <;> cases hp
  expired := by
    intro hp
    rw [h.phase] at hp
    cases hp
  finishing := by simp [h.finishing]

/-- A chunk that is pending lies before the end. -/
theorem pending_incomplete {value : Upload} {c : Chunk} (hv : value.Valid sha256)
    (hc : value.pending = some c) : ¬ value.Complete := by
  intro hend
  obtain ⟨-, -, hpending, -⟩ := hv
  obtain ⟨⟨hpos, -, -, hfits⟩, hoffset⟩ := hpending c hc
  unfold Upload.Complete at hend
  omega

theorem complete_pending {value : Upload} (hv : value.Valid sha256) (hend : value.Complete) :
    value.pending = none := by
  cases hc : value.pending with
  | none => rfl
  | some c => exact absurd hend (pending_incomplete hv hc)

theorem Upload.Same.complete {v r : Upload} (h : v.Same r) (hv : v.Complete) : r.Complete := by
  unfold Upload.Complete at hv ⊢
  rw [← h.nextOffset, ← h.manifest]
  exact hv

/-- Nobody is finishing an upload that is not complete. -/
theorem Inv.not_finishing (h : Inv sha256 sent w) (hend : ¬ w.record.Complete) :
    w.finishing = none := by
  cases hf : w.finishing with
  | none => rfl
  | some v =>
    have hv := h.finishing v hf
    exact absurd (hv.same.complete hv.complete) hend

/-- Once the upload is complete the file is, wherever it lies. -/
theorem Inv.file (h : Inv sha256 sent w) (hend : w.record.Complete)
    (hlive : w.now ≤ w.record.expiresAtUptimeMs) : w.payload.or w.archive = some w.data := by
  cases h.stored with
  | file tail payload torn clean archive =>
    rw [payload, clean (complete_pending h.valid hend), List.append_nil]
    rfl
  | moved payload archive =>
    rw [payload, archive]
    rfl
  | gone payload archive late => omega

theorem Inv.later (h : Inv sha256 sent w) (elapsed : ℕ) :
    Inv sha256 sent { w with now := w.now + elapsed } where
  valid := h.valid
  bootId := h.bootId
  order := h.order
  origin := h.origin
  nextOffset := h.nextOffset
  last := h.last
  pending := h.pending
  stored := by
    cases h.stored with
    | file tail payload torn clean archive => exact .file tail payload torn clean archive
    | moved payload archive => exact .moved payload archive
    | gone payload archive late => exact .gone payload archive (Nat.lt_add_right _ late)
  complete := h.complete
  expired hp := Nat.lt_add_right _ (h.expired hp)
  finishing := h.finishing

/-- Another copy of the journal is written. -/
theorem Inv.store (h : Inv sha256 sent w) {r : Upload} (hsame : r.Same w.record)
    (hvalid : r.Valid sha256) (hcomplete : r.phase.finishing → r.Complete)
    (hexpired : r.phase = .expired → r.expiresAtUptimeMs < w.now) :
    Inv sha256 sent { w with record := r } where
  valid := hvalid
  bootId := hsame.bootId.trans h.bootId
  order := h.order
  origin := h.origin
  nextOffset := hsame.nextOffset.trans h.nextOffset
  last := hsame.last.trans h.last
  pending c hc := h.pending c (hsame.pending.symm.trans hc)
  stored := by
    cases h.stored with
    | file tail payload torn clean archive =>
      exact .file tail payload torn (fun hp => clean (hsame.pending.symm.trans hp)) archive
    | moved payload archive => exact .moved payload archive
    | gone payload archive late => exact .gone payload archive (hsame.expires.symm ▸ late)
  complete := hcomplete
  expired := hexpired
  finishing v hv := by
    have hf := h.finishing v hv
    exact ⟨hf.same.trans hsame.symm, hf.valid, hf.complete, hf.phase⟩

theorem Inv.failed (h : Inv sha256 sent w) (reason : Err) :
    Inv sha256 sent { w with record := w.record.fail reason } :=
  h.store ⟨rfl, rfl, rfl, rfl, rfl, rfl⟩ h.valid (by rintro (hp | hp) <;> cases hp)
    (fun hp => by cases hp)

theorem Inv.expire (h : Inv sha256 sent w) (late : w.record.expiresAtUptimeMs < w.now) :
    Inv sha256 sent { w with record := { w.record with phase := .expired } } :=
  h.store ⟨rfl, rfl, rfl, rfl, rfl, rfl⟩ h.valid (by rintro (hp | hp) <;> cases hp) fun _ => late

/-- Only the payload, the archive and the finishing copy change. -/
theorem Inv.files (h : Inv sha256 sent w) {payload archive : Option Text}
    {finishing : Option Upload}
    (hstored : Stored { w with payload := payload, archive := archive, finishing := finishing })
    (hfinishing : ∀ v ∈ finishing, v.Finishing sha256 w.record) :
    Inv sha256 sent { w with payload := payload, archive := archive, finishing := finishing } where
  valid := h.valid
  bootId := h.bootId
  order := h.order
  origin := h.origin
  nextOffset := h.nextOffset
  last := h.last
  pending := h.pending
  stored := hstored
  complete := h.complete
  expired := h.expired
  finishing := hfinishing

theorem Inv.removed (h : Inv sha256 sent w) (late : w.record.expiresAtUptimeMs < w.now) :
    Inv sha256 sent { w with payload := none } := by
  refine h.files ?_ h.finishing
  cases h.stored with
  | file tail payload torn clean archive => exact .gone rfl archive late
  | moved payload archive => exact .moved rfl archive
  | gone payload archive late => exact .gone rfl archive late

theorem Inv.copied (h : Inv sha256 sent w) {finishing : Option Upload}
    (hf : ∀ v ∈ finishing, v.Finishing sha256 w.record) :
    Inv sha256 sent { w with finishing := finishing } := by
  refine h.files ?_ hf
  cases h.stored with
  | file tail payload torn clean archive => exact .file tail payload torn clean archive
  | moved payload archive => exact .moved payload archive
  | gone payload archive late => exact .gone payload archive late

/-- The pending chunk is found complete in the file. -/
theorem Inv.committed (h : Inv sha256 sent w) {c : Chunk} {file : Text}
    (hc : w.record.pending = some c) (hfile : w.payload = some file)
    (hend : file.length = c.offset + c.bytes) :
    Inv sha256 sent (commitChunk w.record c w) ∧
      (commitChunk w.record c w).payload = some (commitChunk w.record c w).data := by
  obtain ⟨hsent, hchunk⟩ := h.pending c hc
  obtain ⟨hrest, -, hpending, -⟩ := h.valid
  obtain ⟨hfits, hoffset⟩ := hpending c hc
  have hbytes : c.bytes = w.pendingData.length := by
    rw [hchunk]
    rfl
  have hdata : (commitChunk w.record c w).data = w.data ++ w.pendingData := by
    simp [commitChunk, World.data]
  -- as long as the chunk, the torn part is the chunk
  have hwhole : w.payload = some (w.data ++ w.pendingData) ∧ w.archive = none := by
    cases h.stored with
    | file tail payload torn clean archive =>
      rw [hfile, Option.some.injEq] at payload
      rw [payload, List.length_append, hoffset, h.nextOffset] at hend
      have htail := torn.eq_of_length (by omega)
      rw [hfile, payload, htail]
      exact ⟨rfl, archive⟩
    | moved payload archive =>
      rw [hfile] at payload
      cases payload
    | gone payload archive late =>
      rw [hfile] at payload
      cases payload
  refine ⟨?_, hwhole.1.trans (congrArg some hdata.symm)⟩
  exact {
    valid := ⟨hrest, hfits.2.2.2, nofun, fun _ he => by cases he; exact ⟨hfits, rfl⟩⟩
    bootId := h.bootId
    order := inOrder_append.2 ⟨h.order, by
      rw [Nat.zero_add]
      exact hoffset.trans h.nextOffset⟩
    origin := by
      intro x hx
      rcases List.mem_append.1 hx with hx | hx
      · exact h.origin x hx
      · rw [List.mem_singleton.1 hx]
        exact hsent
    nextOffset := by
      rw [hdata, List.length_append, ← h.nextOffset, ← hoffset, ← hbytes]
      rfl
    last := by
      simp only [commitChunk, List.getLast?_append, List.getLast?_singleton, Option.some_or,
        Option.map_some, Upload.commit]
      rw [← hchunk]
    pending := nofun
    stored := .file [] (by
      rw [List.append_nil]
      exact hwhole.1.trans (congrArg some hdata.symm)) List.nil_prefix (fun _ => rfl) hwhole.2
    complete := fun hp => absurd (h.complete hp) (pending_incomplete h.valid hc)
    expired := h.expired
    finishing := by
      intro v hv
      have hnone := h.not_finishing (pending_incomplete h.valid hc)
      rw [show w.finishing = some v from hv] at hnone
      cases hnone }

/-- The next chunk is journalled, over nothing but committed chunks. -/
theorem Inv.journalled (h : Inv sha256 sent w) {x : ℕ × Text} (hx : sent x)
    (hfile : w.payload = some w.data) (hfits : (chunkOf sha256 x).Fits w.record.manifest)
    (hoffset : x.1 = w.record.nextOffset) :
    Inv sha256 sent { w with
      record := { w.record with pending := some (chunkOf sha256 x) }, pendingData := x.2 } := by
  obtain ⟨hrest, hbound, -, hlast⟩ := h.valid
  have hincomplete : ¬ w.record.Complete := by
    intro hend
    obtain ⟨hpos, -, -, hin⟩ := hfits
    unfold Upload.Complete at hend
    simp only [chunkOf] at hpos hin
    omega
  exact {
    valid := ⟨hrest, hbound, fun _ he => by cases he; exact ⟨hfits, hoffset⟩, hlast⟩
    bootId := h.bootId
    order := h.order
    origin := h.origin
    nextOffset := h.nextOffset
    last := h.last
    pending := fun _ he => by cases he; exact ⟨hx, rfl⟩
    stored := by
      cases h.stored with
      | file tail payload torn clean archive =>
        exact .file [] (by rw [List.append_nil]; exact hfile) List.nil_prefix (fun _ => rfl) archive
      | moved payload archive =>
        rw [hfile] at payload
        cases payload
      | gone payload archive late =>
        rw [hfile] at payload
        cases payload
    complete := fun hp => absurd (h.complete hp) hincomplete
    expired := h.expired
    finishing := by
      intro v hv
      have hnone := h.not_finishing hincomplete
      rw [show w.finishing = some v from hv] at hnone
      cases hnone }

/-- Some of the pending chunk reaches the file. -/
theorem Inv.appended (h : Inv sha256 sent w) {c : Chunk} (hc : w.record.pending = some c)
    (hfile : w.payload = some w.data) (written : ℕ) :
    Inv sha256 sent { w with payload := w.payload.map (· ++ w.pendingData.take written) } := by
  refine h.files ?_ h.finishing
  cases h.stored with
  | file tail payload torn clean archive =>
    exact .file (w.pendingData.take written) (by rw [hfile]; rfl) (List.take_prefix _ _)
      (fun hp => by rw [hc] at hp; cases hp) archive
  | moved payload archive =>
    rw [hfile] at payload
    cases payload
  | gone payload archive late =>
    rw [hfile] at payload
    cases payload

end Invariant

/-! What each part of a call needs, and what it leaves. -/

section Calls
variable {sha256 : Text → Text} {sent : ℕ × Text → Prop} {v : Upload} {w : World} {o : Outside}
  {P Q E : World → Prop} {out : Write}

theorem durable_meets {g : World → World} (hg : ∀ w, P w → Q (g w)) (hp : ∀ w, P w → E w)
    (hq : ∀ w, Q w → E w) : Meets P (durable out g) (fun _ => Q) E :=
  meets_bind (Q := fun _ => P) (meets_ensure (fun _ hs _ => hs) hp) fun _ =>
    meets_bind (Q := fun _ => Q) (meets_modify hg) fun _ => meets_ensure (fun _ hs _ => hs) hq

theorem store_meets (hg : ∀ w, P w → Q { w with record := v }) (hp : ∀ w, P w → E w)
    (hq : ∀ w, Q w → E w) : Meets P (store out v) (fun r w => r = v ∧ Q w) E :=
  meets_bind (durable_meets hg hp hq) fun _ => meets_pure fun _ hs => ⟨rfl, hs⟩

variable (sha256 sent) in
/-- `v` is the journal. -/
def Journal (v : Upload) (w : World) : Prop := Inv sha256 sent w ∧ v = w.record

variable (sha256 sent) in
/-- It is the journal of an upload whose time is not over. -/
def Live (v : Upload) (w : World) : Prop :=
  Journal sha256 sent v w ∧ w.now ≤ v.expiresAtUptimeMs

theorem Journal.inv (h : Journal sha256 sent v w) : Inv sha256 sent w := h.1

theorem Live.inv (h : Live sha256 sent v w) : Inv sha256 sent w := h.1.1

theorem uploadRecord_meets :
    Meets (Inv sha256 sent) (uploadRecord sha256) (Journal sha256 sent) (Inv sha256 sent) :=
  meets_bind (Q := fun a w => Inv sha256 sent w ∧ a = w) (meets_get fun _ hs => ⟨hs, rfl⟩) fun _ =>
    meets_bind (Q := fun _ w => Inv sha256 sent w ∧ _ = w) (meets_ensure (fun _ hs _ => hs)
      fun _ hs => hs.1) fun _ => meets_pure fun _ hs => ⟨hs.1, by rw [hs.2]⟩

/-- The payload of an upload goes only when its time is over. -/
theorem removePayload_meets :
    Meets (fun w => Journal sha256 sent v w ∧ v.expiresAtUptimeMs < w.now) (removePayload o)
      (fun _ w => Journal sha256 sent v w ∧ v.expiresAtUptimeMs < w.now) (Inv sha256 sent) := by
  refine meets_bind (meets_get (Q := fun _ w => Journal sha256 sent v w ∧
    v.expiresAtUptimeMs < w.now) fun _ hs => hs) fun a => ?_
  unfold onlyIf
  refine meets_ite (fun _ => ?_) fun _ => meets_pure fun _ hs => hs
  refine meets_bind (Q := fun _ w => Journal sha256 sent v w ∧ v.expiresAtUptimeMs < w.now)
    (meets_ensure (fun _ hs _ => hs) fun _ hs => hs.1.inv) fun _ => meets_modify ?_
  rintro s ⟨⟨hs, rfl⟩, late⟩
  exact ⟨⟨hs.removed late, rfl⟩, late⟩

theorem expireUpload_meets :
    Meets (Inv sha256 sent) (expireUpload sha256 o)
      (fun v w => Journal sha256 sent v w ∧
        (w.now ≤ v.expiresAtUptimeMs ∨ v.phase = .failed ∨ v.phase = .expired))
      (Inv sha256 sent) := by
  unfold expireUpload
  refine meets_bind uploadRecord_meets fun value => ?_
  refine meets_bind (Q := fun a w => Journal sha256 sent value w ∧ a = w)
    (meets_get fun _ hs => ⟨hs, rfl⟩) fun a => ?_
  have hfail : ∀ reason, Meets (fun w => Journal sha256 sent value w ∧ a = w)
      (store o.expire (value.fail reason))
      (fun v w => Journal sha256 sent v w ∧
        (w.now ≤ v.expiresAtUptimeMs ∨ v.phase = .failed ∨ v.phase = .expired))
      (Inv sha256 sent) := by
    intro reason
    refine (store_meets (Q := Journal sha256 sent (value.fail reason)) ?_
      (fun _ hs => hs.1.inv) fun _ hs => hs.inv).imp (fun _ hs => hs) ?_
    · rintro s ⟨⟨hs, rfl⟩, -⟩
      exact ⟨hs.failed reason, rfl⟩
    · rintro r s ⟨rfl, hs⟩
      exact ⟨hs, Or.inr (Or.inl rfl)⟩
  refine meets_ite (fun _ => hfail _) fun _ => meets_ite (fun _ => hfail _) fun _ =>
    meets_ite (fun h => ?_) fun h => ?_
  · refine meets_pure ?_
    rintro s ⟨hs, rfl⟩
    exact ⟨hs, Or.inl h.2.1⟩
  · refine meets_bind (removePayload_meets (v := value).imp ?_ fun _ _ hs => hs) fun _ => ?_
    · rintro s ⟨⟨hs, rfl⟩, rfl⟩
      refine ⟨⟨hs, rfl⟩, ?_⟩
      by_contra hlive
      exact h ⟨hs.bootId, by omega, fun hp => hlive (hs.expired hp)⟩
    · refine (store_meets (Q := Journal sha256 sent { value with phase := .expired }) ?_
        (fun _ hs => hs.1.inv) fun _ hs => hs.inv).imp (fun _ hs => hs) ?_
      · rintro s ⟨⟨hs, rfl⟩, late⟩
        exact ⟨hs.expire late, rfl⟩
      · rintro r s ⟨rfl, hs⟩
        exact ⟨hs, Or.inr (Or.inr rfl)⟩

/-- Whatever a call asks about, it goes on with the journal of a live upload. -/
theorem requireUpload_meets {id : Text} :
    Meets (Inv sha256 sent) (requireUpload sha256 id o) (Live sha256 sent) (Inv sha256 sent) := by
  unfold requireUpload
  refine meets_bind (Q := fun _ => Inv sha256 sent)
    (meets_lift (fun _ _ hs _ => hs) fun _ hs => hs) fun owner => ?_
  refine meets_bind expireUpload_meets fun value => ?_
  refine meets_bind (Q := fun _ w => Journal sha256 sent value w ∧
      (w.now ≤ value.expiresAtUptimeMs ∨ value.phase = .failed ∨ value.phase = .expired))
    (meets_ensure (fun _ hs _ => hs) fun _ hs => hs.1.inv) fun _ => ?_
  refine meets_bind (Q := fun _ w => Journal sha256 sent value w ∧
      (w.now ≤ value.expiresAtUptimeMs ∨ value.phase = .failed))
    (meets_ensure ?_ fun _ hs => hs.1.inv) fun _ => ?_
  · rintro s ⟨hs, hlive⟩ hne
    exact ⟨hs, hlive.imp_right fun h => h.resolve_right hne⟩
  refine meets_bind (Q := fun _ => Live sha256 sent value)
    (meets_ensure ?_ fun _ hs => hs.1.inv) fun _ => ?_
  · rintro s ⟨hs, hlive⟩ hne
    exact ⟨hs, hlive.resolve_right hne⟩
  refine meets_bind (meets_get (Q := fun _ => Live sha256 sent value) fun _ hs => hs) fun _ => ?_
  exact meets_bind (Q := fun _ => Live sha256 sent value)
    (meets_ensure (fun _ hs _ => hs) fun _ hs => hs.inv) fun _ => meets_pure fun _ hs => hs

/-- Without a pending chunk there is nothing behind the committed ones. -/
theorem Inv.clean (h : Inv sha256 sent w) {file : Text} (hfile : w.payload = some file)
    (hlength : file.length = w.data.length) : w.payload = some w.data := by
  cases h.stored with
  | file tail payload torn clean archive =>
    rw [hfile, Option.some.injEq] at payload
    rw [payload, List.length_append] at hlength
    have htail : tail = [] := List.eq_nil_of_length_eq_zero (by omega)
    rw [hfile, payload, htail, List.append_nil]
  | moved payload archive =>
    rw [hfile] at payload
    cases payload
  | gone payload archive late =>
    rw [hfile] at payload
    cases payload

/-- What the file has beyond the committed chunks is committed, or the call fails. -/
theorem reconcileChunk_meets :
    Meets (Live sha256 sent v) (reconcileChunk sha256 out v)
      (fun r w => Live sha256 sent r w ∧ r.phase = v.phase ∧
        (v.phase ≠ .finished → w.payload = some w.data))
      (Inv sha256 sent) := by
  unfold reconcileChunk
  refine meets_ite (fun hp => meets_pure fun _ hs => ⟨hs, rfl, fun hne => absurd hp hne⟩) fun _ =>
    ?_
  refine meets_bind (Q := fun a w => Live sha256 sent v w ∧ a = w)
    (meets_get fun _ hs => ⟨hs, rfl⟩) fun a => ?_
  cases hfile : a.payload with
  | none => exact meets_throw fun _ hs => hs.1.inv
  | some file =>
    refine meets_bind (Q := fun _ w => Live sha256 sent v w ∧ a = w)
      (meets_ensure (fun _ hs _ => hs) fun _ hs => hs.1.inv) fun _ => ?_
    cases hc : v.pending with
    | none =>
      refine meets_bind (Q := fun _ w => Live sha256 sent v w ∧ w.payload = some w.data)
        (meets_ensure ?_ fun _ hs => hs.1.inv) fun _ => meets_pure fun _ hs =>
        ⟨hs.1, rfl, fun _ => hs.2⟩
      rintro s ⟨hs, rfl⟩ hlength
      refine ⟨hs, hs.inv.clean hfile (hlength.trans ?_)⟩
      rw [hs.1.2, hs.inv.nextOffset]
    | some c =>
      refine meets_ite (fun hlength => meets_pure ?_) fun _ => ?_
      · rintro s ⟨hs, rfl⟩
        refine ⟨hs, rfl, fun _ => hs.inv.clean hfile (hlength.trans ?_)⟩
        obtain ⟨-, -, hpending, -⟩ := hs.inv.valid
        rw [(hpending c (hs.1.2 ▸ hc)).2, hs.inv.nextOffset]
      · refine meets_bind (Q := fun _ w => (Live sha256 sent v w ∧ a = w) ∧
          file.length = c.offset + c.bytes)
          (meets_ensure (fun _ hs hp => ⟨hs, hp⟩) fun _ hs => hs.1.inv) fun _ => ?_
        refine meets_bind (Q := fun _ w => (Live sha256 sent v w ∧ a = w) ∧
          file.length = c.offset + c.bytes)
          (meets_ensure (fun _ hs _ => hs) fun _ hs => hs.1.1.inv) fun _ => ?_
        refine meets_bind (durable_meets (Q := fun w => Live sha256 sent (v.commit c) w ∧
          w.payload = some w.data) ?_ (fun _ hs => hs.1.1.inv) fun _ hs => hs.1.inv) fun _ =>
            meets_pure fun _ hs => ⟨hs.1, rfl, fun _ => hs.2⟩
        rintro s ⟨⟨⟨⟨hs, rfl⟩, hlive⟩, rfl⟩, hlength⟩
        obtain ⟨hs, hpayload⟩ := hs.committed hc hfile hlength
        exact ⟨⟨⟨hs, rfl⟩, hlive⟩, hpayload⟩

/-- The chunk of a request that came through the first checks. -/
theorem chunkRequest_meets {request : ChunkRequest} :
    Meets P (chunkRequest sha256 request)
      (fun data w => P w ∧ data = request.data ∧ request.chunk = chunkOf sha256
        (request.offset, data) ∧
        sha (sha256 data) ∧ 1 ≤ data.length ∧ data.length ≤ maximumChunkBytes) P := by
  unfold chunkRequest
  refine meets_bind (Q := fun _ w => P w ∧ sha request.chunkSha256)
    (meets_ensure (fun _ hs hp => ⟨hs, hp.2.2⟩) fun _ hs => hs) fun _ => ?_
  refine meets_bind (Q := fun _ w => (P w ∧ sha request.chunkSha256) ∧ 1 ≤ request.data.length ∧
    request.data.length ≤ maximumChunkBytes ∧ sha256 request.data = request.chunkSha256)
    (meets_ensure (fun _ hs hp => ⟨hs, hp⟩) fun _ hs => hs.1) fun _ => meets_pure ?_
  rintro s ⟨⟨hs, hsha⟩, hpos, hmax, heq⟩
  refine ⟨hs, rfl, ?_, heq ▸ hsha, hpos, hmax⟩
  rw [ChunkRequest.chunk, chunkOf, heq]

theorem enter_meets :
    Meets (Inv sha256 sent) (enter o) (fun _ => Inv sha256 sent) (Inv sha256 sent) :=
  meets_bind (Q := fun _ => Inv sha256 sent) (meets_modify fun _ hs => hs.later o.elapsed) fun _ =>
    meets_lift (fun _ _ hs _ => hs) fun _ hs => hs

theorem journalChunk_meets {request : ChunkRequest} {x : ℕ × Text} (hx : sent x)
    (hchunk : request.chunk = chunkOf sha256 x) (hdata : request.data = x.2)
    (hfits : request.chunk.Fits v.manifest) (hoffset : request.offset = v.nextOffset) :
    Meets (fun w => Live sha256 sent v w ∧ w.payload = some w.data) (journalChunk o v request)
      (fun r w => Live sha256 sent r w ∧ r.phase = v.phase ∧ r.pending = some request.chunk ∧
        w.payload = some w.data ∧ w.pendingData = request.data)
      (Inv sha256 sent) := by
  unfold journalChunk
  refine meets_bind (durable_meets (Q := fun w =>
    Live sha256 sent { v with pending := some request.chunk } w ∧ w.payload = some w.data ∧
      w.pendingData = request.data) ?_ (fun _ hs => hs.1.inv) fun _ hs => hs.1.inv) fun _ =>
        meets_pure fun _ hs => ⟨hs.1, rfl, rfl, hs.2⟩
  rintro s ⟨⟨⟨hs, rfl⟩, hlive⟩, hpayload⟩
  rw [hchunk, hdata]
  exact ⟨⟨⟨hs.journalled hx hpayload (hchunk ▸ hfits)
    ((congrArg Chunk.offset hchunk).symm.trans hoffset), rfl⟩, hlive⟩, hpayload, rfl⟩

theorem appendChunk_meets {data : Text} {c : Chunk} (hc : v.pending = some c) :
    Meets (fun w => Live sha256 sent v w ∧ w.payload = some w.data ∧ w.pendingData = data)
      (appendChunk o data) (fun _ => Live sha256 sent v) (Inv sha256 sent) := by
  unfold appendChunk
  refine meets_bind (Q := fun _ => Live sha256 sent v) (meets_modify ?_) fun _ =>
    meets_ensure (fun _ hs _ => hs) fun _ hs => hs.inv
  rintro s ⟨⟨⟨hs, rfl⟩, hlive⟩, hpayload, rfl⟩
  exact ⟨⟨hs.appended hc hpayload o.written, rfl⟩, hlive⟩

/-- A chunk that is taken is in the file, behind all the others. -/
theorem receiveChunk_meets {request : ChunkRequest} (hx : sent (request.offset, request.data))
    (hchunk : request.chunk = chunkOf sha256 (request.offset, request.data))
    (hsha : sha (sha256 request.data)) (hpos : 1 ≤ request.data.length)
    (hmax : request.data.length ≤ maximumChunkBytes) :
    Meets (fun w => Live sha256 sent v w ∧ (v.phase ≠ .finished → w.payload = some w.data))
      (receiveChunk sha256 request request.data o v)
      (fun n w => Inv sha256 sent w ∧ w.payload = some w.data ∧ n = w.data.length)
      (Inv sha256 sent) := by
  unfold receiveChunk
  refine meets_bind (Q := fun _ w => Live sha256 sent v w ∧ w.payload = some w.data ∧
    v.phase = .receiving) (meets_ensure ?_ fun _ hs => hs.1.inv) fun _ => ?_
  · rintro s ⟨hs, hpayload⟩ hreceiving
    exact ⟨hs, hpayload (by rw [hreceiving]; decide), hreceiving⟩
  refine meets_ite (fun _ => meets_pure fun s hs => ?_) fun _ => ?_
  · obtain ⟨⟨⟨hs, rfl⟩, -⟩, hpayload, -⟩ := hs
    exact ⟨hs, hpayload, hs.nextOffset⟩
  refine meets_bind (Q := fun _ w => (Live sha256 sent v w ∧ w.payload = some w.data ∧
      v.phase = .receiving) ∧ request.offset = v.nextOffset ∧
        request.offset + request.data.length ≤ v.manifest.fileBytes)
    (meets_ensure (fun _ hs hp => ⟨hs, hp⟩) fun _ hs => hs.1.inv) fun _ => ?_
  refine meets_of (p := v.phase = .receiving ∧ request.offset = v.nextOffset ∧
    request.offset + request.data.length ≤ v.manifest.fileBytes) ?_ fun _ hs => ⟨hs.1.2.2, hs.2⟩
  rintro ⟨hreceiving, hoffset, hend⟩
  have hfits : request.chunk.Fits v.manifest := by
    rw [hchunk]
    exact ⟨hpos, hmax, hsha, hend⟩
  refine meets_bind (Q := fun _ w => Live sha256 sent v w ∧ w.payload = some w.data)
    (meets_ensure (fun _ hs _ => ⟨hs.1.1, hs.1.2.1⟩) fun _ hs => hs.1.1.inv) fun _ => ?_
  refine meets_bind (journalChunk_meets hx hchunk rfl hfits hoffset) fun next => ?_
  refine meets_of (p := next.phase = v.phase ∧ next.pending = some request.chunk) ?_
    fun _ hs => ⟨hs.2.1, hs.2.2.1⟩
  rintro ⟨hnext, hpending⟩
  refine meets_bind ((appendChunk_meets hpending).imp
    (fun _ hs => ⟨hs.1, hs.2.2.2⟩) fun _ _ hs => hs) fun _ => ?_
  refine meets_bind reconcileChunk_meets fun last => meets_pure ?_
  rintro s ⟨⟨⟨hs, rfl⟩, -⟩, -, hpayload⟩
  exact ⟨hs, hpayload (by rw [hnext, hreceiving]; decide), hs.nextOffset⟩

/-- A chunk that is answered is in the file, behind all the others. -/
theorem deviceChunk_meets {request : ChunkRequest} (hx : sent (request.offset, request.data)) :
    Meets (Inv sha256 sent) (deviceChunk sha256 request o)
      (fun n w => Inv sha256 sent w ∧ w.payload = some w.data ∧ n = w.data.length)
      (Inv sha256 sent) := by
  unfold deviceChunk
  refine meets_bind chunkRequest_meets fun data => ?_
  refine meets_of (p := data = request.data ∧
    request.chunk = chunkOf sha256 (request.offset, data) ∧ sha (sha256 data) ∧ 1 ≤ data.length ∧
      data.length ≤ maximumChunkBytes) ?_ fun _ hs => hs.2
  rintro ⟨rfl, hchunk, hsha, hpos, hmax⟩
  refine meets_bind (enter_meets.imp (fun _ hs => hs.1) fun _ _ hs => hs) fun _ => ?_
  refine meets_bind (Q := fun _ => Inv sha256 sent)
    (meets_lift (fun _ _ hs _ => hs) fun _ hs => hs) fun _ => ?_
  refine meets_bind requireUpload_meets fun first => meets_bind reconcileChunk_meets fun value => ?_
  exact (receiveChunk_meets hx hchunk hsha hpos hmax).imp
    (fun _ hs => ⟨hs.1, fun hne => hs.2.2 (hs.2.1 ▸ hne)⟩) fun _ _ hs => hs

/-- What device_status answers is in the file, or in the archive the file has become. -/
theorem deviceStatus_meets {id : Text} :
    Meets (Inv sha256 sent) (deviceStatus sha256 id o)
      (fun a w => Inv sha256 sent w ∧ w.payload.or w.archive = some w.data ∧ a.1 = w.data.length)
      (Inv sha256 sent) := by
  unfold deviceStatus
  refine meets_bind (Q := fun _ => Inv sha256 sent)
    (meets_ensure (fun _ hs _ => hs) fun _ hs => hs) fun _ => meets_bind enter_meets fun _ => ?_
  refine meets_bind requireUpload_meets fun value => ?_
  refine meets_bind (Q := fun v w => Inv sha256 sent w ∧ v = w.record ∧
    w.payload.or w.archive = some w.data) ?_ fun _ => meets_pure ?_
  · unfold settled
    refine meets_ite (fun hstaged => meets_pure ?_) fun hstaged => reconcileChunk_meets.imp
      (fun _ hs => hs) ?_
    · rintro s ⟨⟨hs, rfl⟩, hlive⟩
      have hphase : s.record.phase.finishing := by
        simp only [Upload.staged, Bool.or_eq_true, Bool.and_eq_true, decide_eq_true_eq] at hstaged
        exact hstaged.elim Or.inr fun h => Or.inl h.1
      exact ⟨hs, rfl, hs.file (hs.complete hphase) hlive⟩
    · rintro r s ⟨⟨⟨hs, rfl⟩, -⟩, -, hpayload⟩
      refine ⟨hs, rfl, ?_⟩
      rw [hpayload fun hp => hstaged (by simp [Upload.staged, hp])]
      rfl
  · rintro s ⟨hs, rfl, hfile⟩
    exact ⟨hs, hfile, hs.nextOffset⟩

theorem deviceFinish_meets {id : Text} :
    Meets (Inv sha256 sent) (deviceFinish sha256 id o) (fun _ => Inv sha256 sent)
      (Inv sha256 sent) := by
  unfold deviceFinish
  refine meets_bind (Q := fun _ => Inv sha256 sent)
    (meets_ensure (fun _ hs _ => hs) fun _ hs => hs) fun _ => meets_bind enter_meets fun _ => ?_
  refine meets_bind (Q := fun _ => Inv sha256 sent)
    (meets_lift (fun _ _ hs _ => hs) fun _ hs => hs) fun _ => ?_
  refine meets_bind requireUpload_meets fun value => meets_ite (fun hstaged => meets_modify ?_)
    fun _ => ?_
  · rintro s ⟨⟨hs, rfl⟩, -⟩
    have hphase : s.record.phase.finishing := by
      simp only [Upload.staged, Bool.or_eq_true, Bool.and_eq_true, decide_eq_true_eq] at hstaged
      exact hstaged.elim Or.inr fun h => Or.inl h.1
    exact hs.copied fun _ he => by cases he; exact ⟨.refl _, hs.valid, hs.complete hphase, hphase⟩
  · refine meets_bind reconcileChunk_meets fun v => ?_
    refine meets_bind (Q := fun _ w => Journal sha256 sent v w ∧ v.Complete)
      (meets_ensure (fun _ hs hp => ⟨hs.1.1, hp.2⟩) fun _ hs => hs.1.inv) fun _ => ?_
    refine meets_bind (durable_meets (Q := fun w => Journal sha256 sent
        { v with phase := .verifying, candidateId := some o.candidateId } w ∧ v.Complete) ?_
      (fun _ hs => hs.1.inv) fun _ hs => hs.1.inv) fun _ => meets_modify ?_
    · rintro s ⟨⟨hs, rfl⟩, hend⟩
      exact ⟨⟨hs.store ⟨rfl, rfl, rfl, rfl, rfl, rfl⟩ hs.valid (fun _ => hend) nofun, rfl⟩, hend⟩
    · rintro s ⟨⟨hs, he⟩, hend⟩
      exact hs.copied fun _ hv => by
        cases hv
        exact ⟨he ▸ .refl _, he ▸ hs.valid, hend, Or.inl rfl⟩

end Calls

section Runs
variable {sha256 : Text → Text} {sent : ℕ × Text → Prop} {v : Upload} {w w₀ w' : World}
  {o : Outside}
  {acts : List Act} {act : Act} {x : ℕ × Text}

/-- The chunks that the calls of a run carry. -/
def Sent (acts : List Act) (x : ℕ × Text) : Prop :=
  ∃ request o, Act.chunk request o ∈ acts ∧ x = (request.offset, request.data)

theorem Inv.verified (h : Inv sha256 sent w) {candidate : Candidate}
    (hv : v.Finishing sha256 w.record)
    (fits : candidate.Fits v.manifest) :
    Inv sha256 sent
      { w with record := v.verified candidate, finishing := some (v.verified candidate) } := by
  have hvalid : (v.verified candidate).Valid sha256 := by
    obtain ⟨⟨h₁, h₂, h₃, h₄, h₅, h₆, -⟩, hrest⟩ := hv.valid
    exact ⟨⟨h₁, h₂, h₃, h₄, h₅, h₆, fun _ he => by cases he; exact fits⟩, hrest⟩
  have hphase : v.phase ≠ .expired := by
    rcases hv.phase with hp | hp <;> rw [hp] <;> decide
  have hstored := h.store (r := v.verified candidate) hv.same.copy hvalid
    (fun _ => hv.complete) fun hp => absurd hp hphase
  exact hstored.copied fun _ he => by
    cases he
    exact ⟨.refl _, hvalid, hv.complete, hv.phase⟩

theorem Inv.moved (h : Inv sha256 sent w) {file : Text} (hv : v.Finishing sha256 w.record)
    (source : w.payload = some file) :
    Inv sha256 sent { w with payload := none, archive := some file } := by
  refine h.files ?_ h.finishing
  cases h.stored with
  | file tail payload torn clean archive =>
    have hnone := hv.same.pending.symm.trans (complete_pending hv.valid hv.complete)
    rw [source, Option.some.injEq, clean hnone, List.append_nil] at payload
    exact .moved rfl (congrArg some payload)
  | moved payload archive =>
    rw [source] at payload
    cases payload
  | gone payload archive late =>
    rw [source] at payload
    cases payload

theorem Inv.released (h : Inv sha256 sent w) : Inv sha256 sent { w with finishing := none } :=
  h.copied fun _ he => by cases he

theorem Inv.ended (h : Inv sha256 sent w) (hv : v.Finishing sha256 w.record) :
    Inv sha256 sent { w with record := { v with phase := .finished }, finishing := none } :=
  (h.store (r := { v with phase := .finished }) hv.same.copy hv.valid (fun _ => hv.complete)
    nofun).released

theorem Inv.refused (h : Inv sha256 sent w) (hv : v.Finishing sha256 w.record) (reason : Err) :
    Inv sha256 sent { w with record := v.fail reason, finishing := none } :=
  (h.store (r := v.fail reason) hv.same.copy hv.valid
    (fun hp => by rcases hp with hp | hp <;> cases hp)
    nofun).released

theorem step_inv (h : Inv sha256 sent w)
    (hact : ∀ request o, act = .chunk request o → sent (request.offset, request.data))
    (step : Step sha256 w act w') : Inv sha256 sent w' := by
  cases step with
  | chunk => exact (deviceChunk_meets (hact _ _ rfl)).always h fun _ _ hs => hs.1
  | status => exact deviceStatus_meets.always h fun _ _ hs => hs.1
  | finish => exact deviceFinish_meets.always h fun _ _ hs => hs
  | verified running first fits => exact h.verified (h.finishing _ running) fits
  | moved running staged source free digest => exact h.moved (h.finishing _ running) source
  | finished running staged source target => exact h.ended (h.finishing _ running)
  | failed running => exact h.refused (h.finishing _ running) _
  | die => exact h.released

/-- Cut off or not, a run from device_begin keeps the journal and the file together. -/
theorem run_inv (begun : Begun sha256 w₀) (run : Run (Step sha256) w₀ acts w)
    (hsent : ∀ x, Sent acts x → sent x) : Inv sha256 sent w := by
  refine run.invariant_labels (I := Inv sha256 sent)
    (C := fun act => ∀ request o, act = .chunk request o → sent (request.offset, request.data))
    (fun _ _ _ hact h step => step_inv h hact step) ?_ begun.inv
  rintro act ha request o rfl
  exact hsent _ ⟨request, o, ha, rfl⟩

/-! Re-sending the last committed chunk. -/

variable (sha256) in
def resend (w : World) (x : ℕ × Text) : ChunkRequest := ⟨w.record.id, x.1, x.2, sha256 x.2⟩

/-- The router takes a call of the client that began the upload, and its time is not over. -/
structure Admitted (w : World) (o : Outside) : Prop where
  entry : o.entry = .ok ()
  guard : o.guard = .ok ()
  owner : o.owner = .ok w.record.owner
  recordCurrent : o.recordCurrent = true
  stopIntent : w.record.stopIntent = o.stopIntent
  time : w.now + o.elapsed ≤ w.record.expiresAtUptimeMs

theorem exec_enter (hentry : o.entry = .ok ()) :
    exec (enter o) w = (.ok (), { w with now := w.now + o.elapsed }) := by
  unfold enter
  rw [exec_modify_bind, hentry]
  rfl

theorem exec_requireUpload (h : Inv sha256 sent w) (hphase : w.record.phase = .receiving)
    (howner : o.owner = .ok w.record.owner) (hcurrent : o.recordCurrent = true)
    (hstop : w.record.stopIntent = o.stopIntent) (hlive : w.now ≤ w.record.expiresAtUptimeMs) :
    exec (requireUpload sha256 w.record.id o) w = (.ok w.record, w) := by
  have hrecord : exec (uploadRecord sha256) w = (.ok w.record, w) := by
    unfold uploadRecord
    rw [exec_get_bind, exec_ensure_bind h.valid]
    rfl
  have hexpire : exec (expireUpload sha256 o) w = (.ok w.record, w) := by
    unfold expireUpload
    rw [exec_bind_of hrecord, exec_get_bind, if_neg fun hp => hp.2.2 hstop,
      if_neg fun hp => by simp [hcurrent] at hp, if_pos ⟨h.bootId, hlive, by simp [hphase]⟩]
    rfl
  unfold requireUpload
  rw [howner, exec_bind_of exec_lift, exec_bind_of hexpire, exec_ensure_bind ⟨rfl, rfl⟩,
    exec_ensure_bind (by simp [hphase]), exec_ensure_bind (by simp [hphase]), exec_get_bind,
    exec_ensure_bind ⟨hstop, h.bootId⟩]
  rfl

/-- Reconciling leaves everything alone, or commits the pending chunk. -/
theorem exec_reconcileChunk_cases {out : Write} {r : Upload}
    (h : exec (reconcileChunk sha256 out v) w = (.ok r, w')) :
    (r = v ∧ w' = w) ∨ ∃ c, v.pending = some c ∧ r = v.commit c := by
  unfold reconcileChunk at h
  by_cases hp : v.phase = .finished
  · rw [if_pos hp] at h
    cases h
    exact Or.inl ⟨rfl, rfl⟩
  rw [if_neg hp, exec_get_bind] at h
  cases hfile : w.payload with
  | none =>
    rw [hfile] at h
    cases h
  | some file =>
    simp only [hfile] at h
    rcases exec_ensure_bind_cases h with ⟨-, he, -⟩ | ⟨-, h⟩
    · cases he
    cases hc : v.pending with
    | none =>
      simp only [hc] at h
      rcases exec_ensure_bind_cases h with ⟨-, he, -⟩ | ⟨-, h⟩
      · cases he
      · cases h
        exact Or.inl ⟨rfl, rfl⟩
    | some c =>
      simp only [hc] at h
      by_cases hlength : file.length = c.offset
      · rw [if_pos hlength] at h
        cases h
        exact Or.inl ⟨rfl, rfl⟩
      · rw [if_neg hlength] at h
        rcases exec_ensure_bind_cases h with ⟨-, he, -⟩ | ⟨-, h⟩
        · cases he
        rcases exec_ensure_bind_cases h with ⟨-, he, -⟩ | ⟨-, h⟩
        · cases he
        obtain ⟨_, u, -, h⟩ := exec_bind_ok.1 h
        cases h
        exact Or.inr ⟨c, rfl, rfl⟩

/-- Over nothing but committed chunks, reconciling changes nothing. -/
theorem exec_reconcileChunk (h : Inv sha256 sent w) {out : Write}
    (hpayload : w.payload = some w.data) :
    exec (reconcileChunk sha256 out w.record) w = (.ok w.record, w) := by
  obtain ⟨-, hbound, hpending, -⟩ := h.valid
  have hlength : w.data.length ≤ w.record.manifest.fileBytes := h.nextOffset ▸ hbound
  unfold reconcileChunk
  by_cases hp : w.record.phase = .finished
  · rw [if_pos hp]
    rfl
  rw [if_neg hp, exec_get_bind]
  cases hc : w.record.pending with
  | none =>
    simp only [hpayload]
    rw [exec_ensure_bind hlength, exec_ensure_bind h.nextOffset.symm]
    rfl
  | some c =>
    have hoffset := (hpending c hc).2
    simp only [hpayload]
    rw [exec_ensure_bind hlength, if_pos (h.nextOffset.symm.trans hoffset.symm)]
    rfl

theorem exec_resend_head (h : Inv sha256 sent w) (hx : w.committed.getLast? = some x) :
    exec (chunkRequest sha256 (resend sha256 w x)) w = (.ok x.2, w) := by
  obtain ⟨⟨hid, -, -, -, -, ⟨-, -, -, -, -, -, hmax⟩, -⟩, -, -, hlast⟩ := h.valid
  have hfits := (hlast (chunkOf sha256 x) (by rw [h.last, hx]; rfl)).1
  obtain ⟨hpos, hchunk, hsha, hend⟩ := hfits
  simp only [chunkOf] at hpos hchunk hsha hend
  have hinteger : integer x.1 := by
    unfold maximumApkBytes at hmax
    unfold integer
    omega
  unfold chunkRequest
  rw [exec_ensure_bind ⟨hid, hinteger, hsha⟩, exec_ensure_bind ⟨hpos, hchunk, rfl⟩]
  rfl

/-- The call up to where it looks at the file. -/
theorem exec_resend (h : Inv sha256 sent w) (hphase : w.record.phase = .receiving)
    (hx : w.committed.getLast? = some x) (ho : Admitted w o) :
    exec (deviceChunk sha256 (resend sha256 w x) o) w =
      exec (reconcileChunk sha256 o.reconcile w.record >>=
        receiveChunk sha256 (resend sha256 w x) x.2 o) { w with now := w.now + o.elapsed } := by
  unfold deviceChunk
  rw [exec_bind_of (exec_resend_head h hx), exec_bind_of (exec_enter ho.entry), ho.guard,
    exec_bind_of exec_lift]
  exact exec_bind_of (exec_requireUpload (h.later o.elapsed) hphase ho.owner ho.recordCurrent
    ho.stopIntent ho.time)

/-- A chunk that was committed before the last one is not taken again. -/
theorem receiveChunk_stale {request : ChunkRequest} {data : Text}
    (hlast : v.last ≠ some request.chunk) (hoffset : request.offset ≠ v.nextOffset) :
    ∃ e t, exec (receiveChunk sha256 request data o v) w = (.error e, t) := by
  unfold receiveChunk
  by_cases hphase : v.phase = .receiving
  · rw [exec_ensure_bind hphase, if_neg hlast, exec_bind, exec_ensure, if_neg fun h => hoffset h.1]
    exact ⟨_, _, rfl⟩
  · rw [exec_bind, exec_ensure, if_neg hphase]
    exact ⟨_, _, rfl⟩

/-- Over nothing but committed chunks, re-sending the last one is answered and changes nothing. -/
theorem resend_exec (h : Inv sha256 sent w) (hphase : w.record.phase = .receiving)
    (hx : w.committed.getLast? = some x) (ho : Admitted w o) (hpayload : w.payload = some w.data) :
    exec (deviceChunk sha256 (resend sha256 w x) o) w =
      (.ok w.data.length, { w with now := w.now + o.elapsed }) := by
  have hlast : w.record.last = some (resend sha256 w x).chunk := by
    rw [h.last, hx]
    rfl
  rw [exec_resend h hphase hx ho,
    exec_bind_of (exec_reconcileChunk (h.later o.elapsed) hpayload), ← h.nextOffset]
  unfold receiveChunk
  rw [exec_ensure_bind hphase, if_pos hlast]
  rfl

/-- It is answered nowhere else: what lies behind the committed chunks is committed first, or
refused. -/
theorem resend_ok (h : Inv sha256 sent w) (hphase : w.record.phase = .receiving)
    (hx : w.committed.getLast? = some x) (ho : Admitted w o) :
    (∃ n t, exec (deviceChunk sha256 (resend sha256 w x) o) w = (.ok n, t)) ↔
      w.payload = some w.data := by
  constructor
  · rintro ⟨n, t, hok⟩
    rw [exec_resend h hphase hx ho] at hok
    obtain ⟨r, u, hreconcile, hreceive⟩ := exec_bind_ok.1 hok
    have hfile : w.record.phase ≠ .finished → u.payload = some u.data :=
      (reconcileChunk_meets.ok ⟨⟨h.later o.elapsed, rfl⟩, ho.time⟩ hreconcile).2.2
    rcases exec_reconcileChunk_cases hreconcile with ⟨-, rfl⟩ | ⟨c, hc, rfl⟩
    · exact hfile (by rw [hphase]; decide)
    · -- the pending chunk is the last one now
      exfalso
      obtain ⟨-, -, hpending, hlast⟩ := h.valid
      obtain ⟨⟨hpos, -⟩, hoffset⟩ := hpending c hc
      have hend := (hlast (chunkOf sha256 x) (by rw [h.last, hx]; rfl)).2
      have hxpos := (hlast (chunkOf sha256 x) (by rw [h.last, hx]; rfl)).1.1
      simp only [chunkOf] at hend hxpos
      have hlast' : (w.record.commit c).last ≠ some (resend sha256 w x).chunk := by
        intro hl
        have := congrArg Chunk.offset (Option.some.inj hl)
        simp only [ChunkRequest.chunk, resend] at this
        omega
      have hstale : (resend sha256 w x).offset ≠ (w.record.commit c).nextOffset := by
        simp only [resend, Upload.commit]
        omega
      obtain ⟨e, t', he⟩ := receiveChunk_stale hlast' hstale
      rw [he] at hreceive
      cases hreceive
  · intro hpayload
    exact ⟨_, _, resend_exec h hphase hx ho hpayload⟩

/-- What a call that answers `n` leaves of the upload: the committed chunks, sent by the client,
each at the end of the one before it, and a file that is these chunks. -/
structure Intact (sent : ℕ × Text → Prop) (w : World) (n : ℕ) : Prop where
  order : InOrder 0 w.committed
  origin : ∀ x ∈ w.committed, sent x
  file : w.payload.or w.archive = some w.data
  length : n = w.data.length

theorem Sent.grow (h : Sent acts x) : Sent (acts ++ [act]) x := by
  obtain ⟨request, o, hmem, hx⟩ := h
  exact ⟨request, o, List.mem_append_left _ hmem, hx⟩

theorem chunk_intact (begun : Begun sha256 w₀) (run : Run (Step sha256) w₀ acts w)
    {request : ChunkRequest} {n : ℕ}
    (hok : exec (deviceChunk sha256 request o) w = (.ok n, w')) :
    Intact (Sent (acts ++ [.chunk request o])) w' n ∧ w'.payload = some w'.data := by
  have hx : Sent (acts ++ [.chunk request o]) (request.offset, request.data) :=
    ⟨request, o, List.mem_append_right _ List.mem_cons_self, rfl⟩
  obtain ⟨h, hpayload, hlength⟩ :=
    (deviceChunk_meets hx).ok (run_inv begun run fun _ => Sent.grow) hok
  exact ⟨⟨h.order, h.origin, by rw [hpayload]; rfl, hlength⟩, hpayload⟩

theorem status_intact (begun : Begun sha256 w₀) (run : Run (Step sha256) w₀ acts w) {id : Text}
    {answer : ℕ × Bool} (hok : exec (deviceStatus sha256 id o) w = (.ok answer, w')) :
    Intact (Sent acts) w' answer.1 := by
  obtain ⟨h, hfile, hlength⟩ := deviceStatus_meets.ok (run_inv begun run fun _ hx => hx) hok
  exact ⟨h.order, h.origin, hfile, hlength⟩

/-- Over every run from device_begin: what device_chunk and device_status answer is in the file;
re-sending the last committed chunk is answered, and changes nothing, exactly where the file holds
nothing else; device_finish goes on only with the whole file. -/
theorem upload_integrity (begun : Begun sha256 w₀) (run : Run (Step sha256) w₀ acts w) :
    (∀ request o n w', exec (deviceChunk sha256 request o) w = (.ok n, w') →
      Intact (Sent (acts ++ [.chunk request o])) w' n ∧ w'.payload = some w'.data) ∧
    (∀ id o answer w', exec (deviceStatus sha256 id o) w = (.ok answer, w') →
      Intact (Sent acts) w' answer.1) ∧
    (∀ x o, w.record.phase = .receiving → w.committed.getLast? = some x → Admitted w o →
      ((∃ n w', exec (deviceChunk sha256 (resend sha256 w x) o) w = (.ok n, w')) ↔
        w.payload = some w.data) ∧
      (w.payload = some w.data → exec (deviceChunk sha256 (resend sha256 w x) o) w =
        (.ok w.data.length, { w with now := w.now + o.elapsed }))) ∧
    ∀ id o w', (exec (deviceFinish sha256 id o) w).2 = w' → w'.record.phase = .verifying →
      w'.data.length = w'.record.manifest.fileBytes := by
  refine ⟨fun _ _ _ _ => chunk_intact begun run, fun _ _ _ _ => status_intact begun run, ?_, ?_⟩
  · intro x o hphase hx ho
    have h := run_inv begun run fun _ hx => hx
    exact ⟨resend_ok h hphase hx ho, resend_exec h hphase hx ho⟩
  · rintro id o w' rfl hphase
    have h : Inv sha256 (Sent acts) (exec (deviceFinish sha256 id o) w).2 :=
      deviceFinish_meets.always (run_inv begun run fun _ hx => hx) fun _ _ hs => hs
    exact h.nextOffset.symm.trans (h.complete (Or.inl hphase))

end Runs

/-! A chunk that was cut off in the file. -/

/-- A stand-in for the digest that tells the two chunks below apart. -/
def headDigest (value : Text) : Text :=
  List.replicate 64 (if value.head? = some 'a' then 'a' else 'b')

def begunUpload : Upload where
  id := "update-upload-".toList ++ List.replicate 32 '0'
  owner := headDigest []
  principal := []
  manifest := ⟨List.replicate 32 '1', "v1.2.0".toList, "1.2.0-r1".toList, List.replicate 64 'c', 4⟩
  nextOffset := 0
  last := none
  pending := none
  phase := .receiving
  expiresAtUptimeMs := 600000
  bootId := "boot".toList
  stopIntent := 0

def begunWorld : World where
  record := begunUpload
  payload := some []
  archive := none
  finishing := none
  now := 0
  bootId := "boot".toList
  pendingData := []
  committed := []

theorem begunWorld_begun : Begun headDigest begunWorld where
  valid := by decide
  phase := rfl
  nextOffset := rfl
  last := rfl
  pending := rfl
  bootId := rfl
  payload := rfl
  archive := rfl
  finishing := rfl
  committed := rfl

def calm : Outside where
  entry := .ok ()
  elapsed := 1
  owner := .ok begunUpload.owner
  recordCurrent := true
  stopIntent := 0
  guard := .ok ()
  expire := .stored
  unlinked := true
  reconcile := .stored
  admitted := true
  pending := .stored
  written := 2
  appended := true
  commit := .stored
  finish := .stored
  candidateId := "candidate-".toList ++ List.replicate 32 '0'

/-- The process dies when one byte of the chunk is written. -/
def tornOutside : Outside := { calm with written := 1, appended := false }

def firstChunk : ChunkRequest := ⟨begunUpload.id, 0, "aa".toList, headDigest "aa".toList⟩

def secondChunk : ChunkRequest := ⟨begunUpload.id, 2, "bb".toList, headDigest "bb".toList⟩

def oneChunk : World := (exec (deviceChunk headDigest firstChunk calm) begunWorld).2

def tornWorld : World := (exec (deviceChunk headDigest secondChunk tornOutside) oneChunk).2

theorem run_torn :
    Run (Step headDigest) begunWorld [.chunk firstChunk calm, .chunk secondChunk tornOutside]
      tornWorld :=
  .stepL .chunk (.stepL .chunk (.refl _))

/-- Behind a torn chunk the last committed one is not answered again. -/
theorem resend_refused :
    Begun headDigest begunWorld ∧
    Run (Step headDigest) begunWorld [.chunk firstChunk calm, .chunk secondChunk tornOutside]
      tornWorld ∧
    tornWorld.record.phase = .receiving ∧
    tornWorld.committed.getLast? = some (firstChunk.offset, firstChunk.data) ∧
    Admitted tornWorld calm ∧
    (exec (deviceChunk headDigest firstChunk calm) tornWorld).1 =
      .error .updatePackageVerificationFailed :=
  ⟨begunWorld_begun, run_torn, by decide, by decide,
    ⟨rfl, rfl, by decide, rfl, by decide, by decide⟩, by decide⟩

theorem oneChunk_intact :
    Begun headDigest begunWorld ∧
    Run (Step headDigest) begunWorld [.chunk firstChunk calm] oneChunk ∧
    exec (deviceChunk headDigest (resend headDigest oneChunk (0, "aa".toList)) calm) oneChunk =
      (.ok oneChunk.data.length, { oneChunk with now := oneChunk.now + calm.elapsed }) := by
  have run : Run (Step headDigest) begunWorld [.chunk firstChunk calm] oneChunk :=
    .stepL .chunk (.refl _)
  refine ⟨begunWorld_begun, run, ?_⟩
  obtain ⟨-, -, hresend, -⟩ := upload_integrity begunWorld_begun run
  exact (hresend (0, "aa".toList) calm (by decide) (by decide)
    ⟨rfl, rfl, by decide, rfl, by decide, by decide⟩).2 (by decide)

end Foxhole.RamUpload
