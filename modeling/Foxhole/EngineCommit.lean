import Foxhole.EngineModel
import Foxhole.Lib.Keyed

/-! When the registry takes what a plan was made for. -/
namespace Foxhole.Engine
open Check Text Keyed

variable {raw : RawRegistry} {r installed : Registry} {e next : Entry} {additions : List Entry}
  {removals : List Text} {id : Text} {field : Field Entry}

theorem member_eq_ok {α : Type} {f : Field α} {a : α} : member f = .ok a ↔ f = .value a := by
  cases f <;> simp [member]

theorem entry_eq_ok : entry field = .ok e ↔ field = .value e ∧ e.Ok := by
  cases field with
  | missing => simp [entry]
  | invalid => simp [entry]
  | value a =>
    simp only [entry, bind_eq_ok, require_eq_ok, pure_eq_ok, Field.value.injEq]
    constructor
    · rintro ⟨_, h, rfl⟩
      exact ⟨rfl, h⟩
    · rintro ⟨rfl, h⟩
      exact ⟨(), h, rfl⟩

/-- A registry whose parts fit together, however many slots it has. -/
structure Registry.Sound (r : Registry) : Prop where
  revision : number r.revision 0x7fffffff
  slots : ∀ slot ∈ r.slots, slot.Ok
  slotIds : (r.slots.map slotId).Nodup
  selected : ∀ row ∈ r.selected, row.id ∈ IDS ∧
    ∃ slot ∈ r.slots, slotId slot = row.slotId ∧ slot.id = row.id
  selectedIds : (r.selected.map (·.id)).Nodup

/-- Slots have identifiers of their own, so looking one up finds the one that is meant. -/
theorem find_slot {slots : List Entry} {row : Selected} (h : (slots.map slotId).Nodup) :
    (slots.find? fun slot => slotId slot = row.slotId).map (·.id) = some row.id ↔
      ∃ slot ∈ slots, slotId slot = row.slotId ∧ slot.id = row.id := by
  constructor
  · intro hf
    obtain ⟨slot, hslot, hid⟩ := Option.map_eq_some_iff.1 hf
    exact ⟨slot, List.mem_of_find?_eq_some hslot, by simpa using List.find?_some hslot, hid⟩
  · rintro ⟨slot, hm, hk, hid⟩
    rw [Keyed.find?_of_mem h hm (by simpa using hk) (by simp [hk]), Option.map_some, hid]

theorem checkSlot_eq_ok {seen : List Text} : checkSlot seen field = .ok e ↔
    field = .value e ∧ e.Ok ∧ slotId e ∉ seen := by
  simp only [checkSlot, bind_eq_ok, require_eq_ok, pure_eq_ok, entry_eq_ok]
  constructor
  · rintro ⟨_, ⟨hf, hok⟩, _, hs, rfl⟩
    exact ⟨hf, hok, hs⟩
  · rintro ⟨hf, hok, hs⟩
    exact ⟨e, ⟨hf, hok⟩, (), hs, rfl⟩

theorem checkSelected_eq_ok {slots : List Entry} {names : List Text} {f : Field Selected}
    {row : Selected} (hn : (slots.map slotId).Nodup) : checkSelected slots names f = .ok row ↔
      f = .value row ∧ (row.id ∈ IDS ∧
        ∃ slot ∈ slots, slotId slot = row.slotId ∧ slot.id = row.id) ∧ row.id ∉ names := by
  simp only [checkSelected, bind_eq_ok, require_eq_ok, pure_eq_ok, member_eq_ok]
  constructor
  · rintro ⟨_, hf, _, hid, _, hslot, rfl⟩
    exact ⟨hf, ⟨hid.1, (find_slot hn).1 hslot⟩, hid.2⟩
  · rintro ⟨hf, ⟨hid, hslot⟩, hnames⟩
    exact ⟨row, hf, (), ⟨hid, hnames⟩, (), (find_slot hn).2 hslot, rfl⟩

theorem ids_le {l : List Text} (hn : l.Nodup) (hs : l ⊆ IDS) : l.length ≤ 12 := by
  simpa [IDS] using (List.subperm_of_subset hn hs).length_le

/-- The selected engines are among twelve. -/
theorem Registry.Sound.selected_le (h : r.Sound) : r.selected.length ≤ 12 := by
  have hsub : r.selected.map (·.id) ⊆ IDS := by
    intro id hid
    obtain ⟨row, hrow, rfl⟩ := List.mem_map.1 hid
    exact (h.selected row hrow).1
  simpa using ids_le h.selectedIds hsub

/-- `registry` accepts the printed form of a sound registry with at most 48 slots. -/
theorem registry_eq_ok : registry raw = .ok r ↔ raw = r.raw ∧ r.Sound ∧ r.slots.length ≤ 48 := by
  have hslots : ∀ seen a b, checkSlot seen a = .ok b ↔ a = .value b ∧ b.Ok ∧ slotId b ∉ seen :=
    fun _ _ _ => checkSlot_eq_ok
  constructor
  · intro h
    simp only [registry, bind_eq_ok, require_eq_ok, pure_eq_ok, member_eq_ok] at h
    obtain ⟨_, ⟨hunk, hschema⟩, rev, hrev, _, hnum, rslots, hrs, rsel, hrsel, _, ⟨hlen, -⟩, slots,
      hscan, sel, hsel, rfl⟩ := h
    obtain ⟨rfl, hok, hnd⟩ := (scan_eq_ok_iff hslots).1 hscan
    obtain ⟨rfl, hsok, hsnd⟩ := (scan_eq_ok_iff fun _ _ _ => checkSelected_eq_ok hnd).1 hsel
    refine ⟨?_, ⟨hnum, fun s hs => (hok s hs).1, hnd, fun s hs => (hsok s hs).1, hsnd⟩, ?_⟩
    · cases raw
      simp_all [Registry.raw]
    · simpa using hlen
  · rintro ⟨rfl, h, hlen⟩
    simp only [registry, bind_eq_ok, require_eq_ok, pure_eq_ok, member_eq_ok]
    refine ⟨(), ⟨rfl, rfl⟩, _, rfl, (), h.revision, _, rfl, _, rfl, (), ⟨by simpa using hlen,
      by simpa using h.selected_le⟩, r.slots, ?_, r.selected, ?_, rfl⟩
    · exact (scan_eq_ok_iff hslots).2 ⟨rfl, fun s hs => ⟨h.slots s hs, by simp⟩, h.slotIds⟩
    · exact (scan_eq_ok_iff fun _ _ _ => checkSelected_eq_ok h.slotIds).2
        ⟨rfl, fun s hs => ⟨h.selected s hs, by simp⟩, h.selectedIds⟩

theorem Registry.raw_slots {r r' : Registry} (h : r.raw = r'.raw) : r.slots = r'.slots := by
  have hs := congrArg RawRegistry.slots h
  simp only [Registry.raw, Field.value.injEq] at hs
  exact List.map_injective_iff.2 (fun _ _ he => Field.value.inj he) hs

theorem Registry.raw_injective {r r' : Registry} (h : r.raw = r'.raw) : r = r' := by
  have hslots := raw_slots h
  cases r
  cases r'
  simp only [Registry.raw, RawRegistry.mk.injEq, Field.value.injEq, true_and] at h
  obtain ⟨hrev, -, hsel⟩ := h
  have hselected := List.map_injective_iff.2 (fun _ _ he => Field.value.inj he) hsel
  simp only [Registry.mk.injEq]
  exact ⟨hrev, hslots, hselected⟩

theorem dash_notMem_IDS : ∀ id ∈ IDS, ∀ c ∈ id, c ≠ '-' := by decide

/-- A slot identifier begins with the engine it is of. -/
theorem slotId_id (h : e.id ∈ IDS) : (slotId e).takeWhile (· ≠ '-') = e.id := by
  have hid : ∀ c ∈ e.id, (decide (c ≠ '-')) = true := by
    intro c hc
    simpa using dash_notMem_IDS _ h c hc
  simp only [slotId, List.append_assoc, List.singleton_append]
  rw [List.takeWhile_append_of_pos hid]
  simp

theorem Entry.Ok.id_mem (h : e.Ok) : e.id ∈ IDS := h.1

theorem slotIds_nodup (hok : ∀ e ∈ additions, e.Ok) (hn : (additions.map (·.id)).Nodup) :
    (additions.map slotId).Nodup := by
  have hmap : (additions.map slotId).map (fun k => k.takeWhile (· ≠ '-')) =
      additions.map (·.id) := by
    rw [List.map_map]
    exact List.map_congr_left fun e he => slotId_id (hok e he).id_mem
  exact List.Nodup.of_map _ (hmap ▸ hn)

theorem Registry.add_slots : (r.add e).slots = insertNew slotId r.slots e := rfl

theorem Registry.Sound.remove (h : r.Sound) : (r.remove id).Sound where
  revision := h.revision
  slots := fun slot hs => h.slots slot (List.mem_filter.1 hs).1
  slotIds := h.slotIds.sublist (List.filter_sublist.map slotId)
  selected := by
    intro row hrow
    obtain ⟨hrow, hne⟩ := List.mem_filter.1 hrow
    obtain ⟨hid, slot, hslot, hkey, hsid⟩ := h.selected row hrow
    exact ⟨hid, slot, List.mem_filter.2 ⟨hslot, by simpa [hsid] using hne⟩, hkey, hsid⟩
  selectedIds := h.selectedIds.sublist (List.filter_sublist.map _)

/-- A slot stays, or is the very one that is added. -/
theorem Registry.Sound.add (h : r.Sound) (he : e.Ok) : (r.add e).Sound where
  revision := h.revision
  slots := by
    intro slot hs
    rcases mem_of_mem_insertNew hs with hs | rfl
    · exact h.slots slot hs
    · exact he
  slotIds := nodup_insertNew h.slotIds
  selected := by
    intro row hrow
    rcases List.mem_append.1 hrow with hrow | hrow
    · obtain ⟨hid, slot, hslot, hkey⟩ := h.selected row (List.mem_filter.1 hrow).1
      exact ⟨hid, slot, subset_insertNew hslot, hkey⟩
    · obtain rfl := List.mem_singleton.1 hrow
      have hmem : slotId e ∈ (insertNew slotId r.slots e).map slotId := key_mem_insertNew
      obtain ⟨slot, hslot, hkey⟩ := List.mem_map.1 hmem
      have hok : slot.Ok := by
        rcases mem_of_mem_insertNew hslot with hs | rfl
        · exact h.slots slot hs
        · exact he
      have hid : slot.id = e.id := by
        rw [← slotId_id hok.id_mem, hkey, slotId_id he.id_mem]
      exact ⟨he.id_mem, slot, hslot, hkey, hid⟩
  selectedIds := by
    change ((r.selected.filter _ ++ [_]).map _).Nodup
    rw [List.map_append, List.nodup_append]
    refine ⟨h.selectedIds.sublist (List.filter_sublist.map _), by simp, ?_⟩
    rintro id hid id' hid' rfl
    obtain ⟨row, hrow, rfl⟩ := List.mem_map.1 hid
    have hne := (List.mem_filter.1 hrow).2
    simp_all

theorem Registry.Sound.foldl_remove (h : r.Sound) : (removals.foldl Registry.remove r).Sound := by
  induction removals generalizing r with
  | nil => exact h
  | cons id removals ih => exact ih h.remove

theorem Registry.Sound.foldl_add (h : r.Sound) (hok : ∀ e ∈ additions, e.Ok) :
    (additions.foldl Registry.add r).Sound := by
  induction additions generalizing r with
  | nil => exact h
  | cons e additions ih =>
    exact ih (h.add (hok e List.mem_cons_self)) fun a ha => hok a (List.mem_cons_of_mem _ ha)

theorem foldl_add_slots :
    (additions.foldl Registry.add r).slots = additions.foldl (insertNew slotId) r.slots := by
  induction additions generalizing r with
  | nil => rfl
  | cons e additions ih => rw [List.foldl_cons, ih, Registry.add_slots, List.foldl_cons]

theorem foldl_remove_slots (removals : List Text) :
    (removals.foldl Registry.remove r).slots.Sublist r.slots := by
  induction removals generalizing r with
  | nil => exact List.Sublist.refl _
  | cons id removals ih => exact ih.trans List.filter_sublist

theorem foldl_remove_revision : (removals.foldl Registry.remove r).revision = r.revision := by
  induction removals generalizing r with
  | nil => rfl
  | cons id removals ih => exact ih

theorem foldl_add_revision : (additions.foldl Registry.add r).revision = r.revision := by
  induction additions generalizing r with
  | nil => rfl
  | cons e additions ih => exact ih

/-- What `commit` makes of a registry before it is checked again. -/
def Registry.committed (r : Registry) (additions : List Entry) (removals : List Text) : Registry :=
  let next := additions.foldl Registry.add (removals.foldl Registry.remove r)
  { next with revision := next.revision + 1 }

theorem Registry.committed_revision :
    (r.committed additions removals).revision = r.revision + 1 := by
  simp only [Registry.committed, foldl_add_revision, foldl_remove_revision]

theorem Registry.Sound.committed (h : r.Sound) (hrev : r.revision < 0x7fffffff)
    (hok : ∀ e ∈ additions, e.Ok) : (r.committed additions removals).Sound := by
  have hs : (additions.foldl Registry.add (removals.foldl Registry.remove r)).Sound :=
    h.foldl_remove.foldl_add hok
  have hnum := h.revision
  refine ⟨?_, hs.slots, hs.slotIds, hs.selected, hs.selectedIds⟩
  rw [Registry.committed_revision]
  exact ⟨by have := hnum.1; omega, by omega⟩

theorem commit_eq_ok (hr : registry raw = .ok installed) (hok : ∀ e ∈ additions, e.Ok)
    {expected : ℤ} : commit raw additions removals expected = .ok r ↔
      expected = installed.revision ∧ expected < 0x7fffffff ∧
      (installed.committed additions removals).slots.length ≤ 48 ∧
      r = installed.committed additions removals := by
  obtain ⟨-, hsound, -⟩ := registry_eq_ok.1 hr
  have hfold : additions.foldlM (fun result raw => Registry.add result <$> entry (.value raw))
      (removals.foldl Registry.remove installed) =
      .ok (additions.foldl Registry.add (removals.foldl Registry.remove installed)) := by
    refine foldlM_eq_foldl fun a ha b => ?_
    rw [map_eq_ok]
    exact ⟨a, entry_eq_ok.2 ⟨rfl, hok a ha⟩, rfl⟩
  have hcommit : commit raw additions removals expected = (do
      require (installed.revision = expected ∧ expected < 0x7fffffff) .engineStalePlan
      registry (installed.committed additions removals).raw) := by
    simp only [commit, hr, bind, Except.bind, hfold]
    rfl
  rw [hcommit]
  simp only [bind_eq_ok, require_eq_ok]
  constructor
  · rintro ⟨_, ⟨rfl, hrev⟩, h⟩
    obtain ⟨hraw, -, hlen⟩ := registry_eq_ok.1 h
    have hcs : (installed.committed additions removals).Sound := hsound.committed hrev hok
    rw [← Registry.raw_slots hraw] at hlen
    have hself := registry_eq_ok.2 ⟨rfl, hcs, hlen⟩
    exact ⟨rfl, hrev, hlen, Except.ok.inj (h.symm.trans hself)⟩
  · rintro ⟨rfl, hrev, hlen, rfl⟩
    exact ⟨(), ⟨rfl, hrev⟩, registry_eq_ok.2 ⟨rfl, hsound.committed hrev hok, hlen⟩⟩

/-- `commit` against the revision it was planned for fails at the number of slots only. -/
theorem commit_succeeds (hr : registry raw = .ok installed) (hrev : installed.revision < 0x7fffffff)
    (hok : ∀ e ∈ additions, e.Ok) : Succeeds (commit raw additions removals installed.revision) ↔
      (additions.foldl Registry.add (removals.foldl Registry.remove installed)).slots.length ≤
        48 := by
  constructor
  · rintro ⟨r, h⟩
    exact ((commit_eq_ok hr hok).1 h).2.2.1
  · intro hlen
    exact ⟨_, (commit_eq_ok hr hok).2 ⟨rfl, hrev, hlen, rfl⟩⟩

variable {fingerprint : Plan → Text} {request : Request} {rawCatalog : RawCatalog}
  {context : Context} {owner nonce : Text} {now : ℤ} {p : Plan} {operation : Operation}
  {wish : Wish}
  {available : List Entry} {draft draft' : Draft} {pre : List Text}

theorem choose_mem {candidates : List Entry}
    (h : choose wish context draft candidates = some next) :
    next ∈ candidates := by
  unfold choose at h
  cases wish with
  | flash => exact List.mem_of_find?_eq_some h
  | ram => exact List.mem_of_find?_eq_some h
  | auto =>
    cases hf : candidates.find? fun row => row.storage = .flash with
    | none =>
      simp only [hf] at h
      exact List.mem_of_find?_eq_some h
    | some fixed =>
      simp only [hf] at h
      split at h
      · obtain rfl := Option.some.inj h
        exact List.mem_of_find?_eq_some hf
      · exact List.mem_of_find?_eq_some h

/-- What the loop of `plan` has gathered from the engines `pre`. -/
structure Drafted (operation : Operation) (available : List Entry) (pre : List Text)
    (draft : Draft) : Prop where
  ids : draft.artifacts.map (·.id) = if operation = .remove then [] else pre
  removals : operation ≠ .remove → draft.removals = []
  available : ∀ e ∈ draft.artifacts, e ∈ available

/-- A round of `plan` removes the engine, or installs one of its packages for the router. -/
theorem planStep_cases
    (hs : planStep operation wish available installed context draft id = .ok draft') :
    (operation = .remove ∧ ∃ old, draft' = draft.remove id old) ∨
    (operation ≠ .remove ∧ ∃ old next, draft' = draft.install context id old next ∧
      next ∈ available ∧ next.id = id ∧ next.architecture = context.architecture) := by
  simp only [planStep, bind_eq_ok] at hs
  obtain ⟨old, -, hs⟩ := hs
  by_cases hop : operation = .remove
  · simp only [hop, if_true, bind_eq_ok, require_eq_ok, pure_eq_ok] at hs
    obtain ⟨_, -, _, -, rfl⟩ := hs
    exact Or.inl ⟨hop, old, rfl⟩
  · simp only [hop, if_false, bind_eq_ok, require_eq_ok] at hs
    obtain ⟨_, -, _, -, _, -, hs⟩ := hs
    cases hc : choose wish context draft ((available.filter fun row => row.id = id).filter
        fun row => row.architecture = context.architecture) with
    | none => simp only [hc, throw_ne_ok] at hs
    | some next =>
      simp only [hc, bind_eq_ok, require_eq_ok, pure_eq_ok] at hs
      obtain ⟨_, -, rfl⟩ := hs
      obtain ⟨hsame, harch⟩ := List.mem_filter.1 (choose_mem hc)
      obtain ⟨hmem, hid⟩ := List.mem_filter.1 hsame
      exact Or.inr ⟨hop, old, next, rfl, hmem, of_decide_eq_true hid, of_decide_eq_true harch⟩

theorem drafted_step (h : Drafted operation available pre draft)
    (hs : planStep operation wish available installed context draft id = .ok draft') :
    Drafted operation available (pre ++ [id]) draft' := by
  have hids := h.ids
  rcases planStep_cases hs with ⟨hop, old, rfl⟩ | ⟨hop, old, next, rfl, hmem, hid, -⟩
  · rw [if_pos hop] at hids
    exact ⟨by rw [if_pos hop]; exact hids, fun hne => absurd hop hne, h.available⟩
  · rw [if_neg hop] at hids
    refine ⟨?_, h.removals, ?_⟩
    · rw [if_neg hop]
      simp only [Draft.install, List.map_append, hids, List.map_cons, List.map_nil, hid]
    · intro e he
      rcases List.mem_append.1 he with he | he
      · exact h.available e he
      · obtain rfl := List.mem_singleton.1 he
        exact hmem

/-- What is installed is built for the router. -/
theorem built_step (h : ∀ e ∈ draft.artifacts, e.architecture = context.architecture)
    (hs : planStep operation wish available installed context draft id = .ok draft') :
    ∀ e ∈ draft'.artifacts, e.architecture = context.architecture := by
  rcases planStep_cases hs with ⟨-, old, rfl⟩ | ⟨-, old, next, rfl, -, -, harch⟩
  · exact h
  · intro e he
    rcases List.mem_append.1 he with he | he
    · exact h e he
    · obtain rfl := List.mem_singleton.1 he
      exact harch

/-- The JSON form of a catalog. -/
def catalogOf (entries : List Entry) : RawCatalog where
  schema := .value 1
  entries := .value (entries.map .value)

theorem catalog_eq_ok : catalog rawCatalog = .ok available ↔ rawCatalog = catalogOf available ∧
    (∀ e ∈ available, e.Ok) ∧ (available.map catalogKey).Nodup ∧ available.length ≤ 72 := by
  have hstep : ∀ (seen : List (Text × Storage × Text)) (a : Field Entry) (b : Entry), (do
      let item ← entry a
      require (catalogKey item ∉ seen) .enginePackageVerificationFailed
      return item) = .ok b ↔ a = .value b ∧ b.Ok ∧ catalogKey b ∉ seen := by
    intro seen a b
    simp only [bind_eq_ok, require_eq_ok, pure_eq_ok, entry_eq_ok]
    constructor
    · rintro ⟨_, ⟨hf, hok⟩, _, hs, rfl⟩
      exact ⟨hf, hok, hs⟩
    · rintro ⟨hf, hok, hs⟩
      exact ⟨b, ⟨hf, hok⟩, (), hs, rfl⟩
  simp only [catalog, bind_eq_ok, require_eq_ok, member_eq_ok]
  constructor
  · rintro ⟨_, ⟨hunk, hschema⟩, entries, hentries, _, hlen, h⟩
    obtain ⟨rfl, hok, hnd⟩ := (scan_eq_ok_iff hstep).1 h
    refine ⟨?_, fun e he => (hok e he).1, hnd, by simpa using hlen⟩
    cases rawCatalog
    simp_all [catalogOf]
  · rintro ⟨rfl, hok, hnd, hlen⟩
    exact ⟨(), ⟨rfl, rfl⟩, _, rfl, (), by simpa using hlen,
      (scan_eq_ok_iff hstep).2 ⟨rfl, fun e he => ⟨hok e he, by simp⟩, hnd⟩⟩

theorem ids_nodup {f : Field (List (Field Text))} {wanted : List Text} (h : ids f = .ok wanted) :
    wanted.Nodup := by
  cases f with
  | missing => simp [ids] at h
  | invalid => simp [ids] at h
  | value l =>
    simp only [ids, bind_eq_ok, require_eq_ok, pure_eq_ok] at h
    obtain ⟨_, -, l', hl', rfl⟩ := h
    have hnd := ((scan_eq_ok_iff (k := fun t => t) (g := .value) (Q := (· ∈ IDS)) ?_).1 hl').2.2
    · rw [List.map_id'] at hnd
      exact (List.perm_insertionSort (· ≤ ·) l').nodup_iff.2 hnd
    · intro seen a b
      cases a with
      | missing => simp
      | invalid => simp
      | value id =>
        simp only [bind_eq_ok, require_eq_ok, pure_eq_ok, Field.value.injEq]
        constructor
        · rintro ⟨_, h, rfl⟩
          exact ⟨rfl, h⟩
        · rintro ⟨rfl, h⟩
          exact ⟨(), h, rfl⟩

/-- An accepted plan is the draft its loop has gathered. -/
theorem plan_draft (h : plan fingerprint request rawCatalog raw context owner nonce now = .ok p)
    (hr : registry raw = .ok installed) : ∃ operation wish wanted available draft,
      ids request.engineIds = .ok wanted ∧ catalog rawCatalog = .ok available ∧
      wanted.foldlM (planStep operation wish available installed context) {} = .ok draft ∧
      installed.revision ≤ 0x7ffffffe ∧ p.revision = installed.revision ∧
      p.artifacts = draft.artifacts ∧ p.removals = draft.removals := by
  simp only [plan, bind_eq_ok, require_eq_ok] at h
  obtain ⟨_, -, h⟩ := h
  cases hop : request.operation with
  | none => simp [hop] at h
  | some operation =>
    cases hw : request.storage with
    | none => simp [hop, hw] at h
    | some wish =>
      cases hexp : request.expectedRevision with
      | missing => simp [hop, hw, hexp] at h
      | invalid => simp [hop, hw, hexp] at h
      | value expected =>
        simp only [hop, hw, hexp, bind_eq_ok, require_eq_ok, pure_eq_ok, hr, Except.ok.injEq,
          exists_eq_left'] at h
        obtain ⟨_, ⟨hnum, -⟩, wanted, hwanted, available, havailable, _, ⟨hrev, -⟩, draft, hdraft,
          _, -, rfl⟩ := h
        exact ⟨operation, wish, wanted, available, draft, hwanted, havailable, hdraft,
          hrev ▸ hnum.2, rfl, rfl, rfl⟩

/-- What an accepted plan asks of the registry it was made for. -/
theorem plan_ok (h : plan fingerprint request rawCatalog raw context owner nonce now = .ok p)
    (hr : registry raw = .ok installed) : installed.revision ≤ 0x7ffffffe ∧
      p.revision = installed.revision ∧ (∀ e ∈ p.artifacts, e.Ok) ∧
      (p.artifacts.map (·.id)).Nodup ∧ (p.removals = [] ∨ p.artifacts = []) := by
  obtain ⟨operation, wish, wanted, available, draft, hwanted, havailable, hdraft, hrev, hprev, hart,
    hrem⟩ := plan_draft h hr
  have hinit : Drafted operation available [] {} := ⟨by simp, fun _ => rfl, by simp⟩
  have hd := foldlM_prefix (fun pre b a c hb hc => drafted_step hb hc) hinit hdraft
  rw [hart, hrem]
  refine ⟨hrev, hprev, fun e he => (catalog_eq_ok.1 havailable).2.1 e (hd.available e he), ?_, ?_⟩
  · rw [hd.ids]
    split
    · exact List.nodup_nil
    · exact ids_nodup hwanted
  · by_cases hrm : operation = .remove
    · right
      have hids := hd.ids
      rw [if_pos hrm] at hids
      exact List.map_eq_nil_iff.1 hids
    · exact Or.inl (hd.removals hrm)

/-- A plan installs what the catalog has for the router. -/
theorem plan_artifacts
    (h : plan fingerprint request rawCatalog raw context owner nonce now = .ok p)
    (hr : registry raw = .ok installed) : ∃ available, catalog rawCatalog = .ok available ∧
      ∀ e ∈ p.artifacts, e ∈ available ∧ e.architecture = context.architecture := by
  obtain ⟨operation, wish, wanted, available, draft, -, havailable, hdraft, -, -, hart, -⟩ :=
    plan_draft h hr
  have hinit : Drafted operation available [] {} := ⟨by simp, fun _ => rfl, by simp⟩
  have hd := foldlM_prefix (fun pre b a c hb hc => drafted_step hb hc) hinit hdraft
  have hb := foldlM_prefix (I := fun _ draft =>
    ∀ e ∈ draft.artifacts, e.architecture = context.architecture)
    (fun pre b a c hb hc => built_step hb hc) (by simp) hdraft
  exact ⟨available, havailable, fun e he => ⟨hd.available e (hart ▸ he), hb e (hart ▸ he)⟩⟩

/-- A plan installs one package for each of at most twelve engines. -/
theorem plan_artifacts_le
    (h : plan fingerprint request rawCatalog raw context owner nonce now = .ok p)
    (hr : registry raw = .ok installed) : p.artifacts.length ≤ 12 := by
  obtain ⟨-, -, hok, hnd, -⟩ := plan_ok h hr
  have hsub : p.artifacts.map (·.id) ⊆ IDS := by
    intro id hid
    obtain ⟨e, he, rfl⟩ := List.mem_map.1 hid
    exact (hok e he).id_mem
  simpa using ids_le hnd hsub

/-- The registry takes a plan exactly when its slots and the packages that are no slot yet are at
most 48 together. -/
theorem commit_plan_iff
    (h : plan fingerprint request rawCatalog raw context owner nonce now = .ok p)
    (hr : registry raw = .ok installed) :
    Succeeds (commit raw p.artifacts p.removals installed.revision) ↔
      installed.slots.length +
        (p.artifacts.filter fun e => slotId e ∉ installed.slots.map slotId).length ≤ 48 := by
  obtain ⟨hrev, -, hok, hnd, hor⟩ := plan_ok h hr
  rw [commit_succeeds hr (by omega) hok, foldl_add_slots,
    length_foldl_insertNew (slotIds_nodup hok hnd)]
  rcases hor with hrm | hart
  · rw [hrm, List.foldl_nil]
    -- the two filters differ in the decision procedure only
    refine iff_of_eq (congrArg (fun l : List Entry => installed.slots.length + l.length ≤ 48) ?_)
    exact List.filter_congr fun _ _ => decide_eq_decide.2 Iff.rfl
  · have hlen : (p.removals.foldl Registry.remove installed).slots.length ≤
        installed.slots.length := (foldl_remove_slots p.removals).length_le
    have h48 := (registry_eq_ok.1 hr).2.2
    simp only [hart, List.filter_nil, List.length_nil]
    omega

/-! A registry full of retained slots. -/

def digit (n : ℕ) : Char :=
  ['0', '1', '2', '3', '4', '5', '6', '7', '8', '9', 'a', 'b', 'c', 'd', 'e', 'f'].getD n '0'

/-- Forty-eight different digests, and more. -/
def digestOf (n : ℕ) : Text := digit (n / 16) :: digit (n % 16) :: List.replicate 62 'a'

def vless : Text := ['v', 'l', 'e', 's', 's']

def release : Text := BASE ++ "v1.0.0/".toList

def packageName (id : Text) (n : ℕ) : Text :=
  "foxcore-engine-".toList ++ id ++ ['-'] ++ "flash".toList ++ ['-'] ++ digestOf n

/-- A flash package of one engine with a manifest of its own. -/
def packageOf (id : Text) (n : ℕ) : Entry where
  id := id
  storage := .flash
  version := "1.0.0".toList
  architecture := "x86_64".toList
  binarySha256 := digestOf n
  executableSha256 := digestOf n
  producerSha256 := digestOf 0
  capabilitiesSha256 := digestOf 0
  legalProvenanceSha256 := digestOf 0
  manifestSha256 := digestOf n
  sourceCommit := List.replicate 40 'a'
  binaryBytes := 1024
  archiveBytes := 2048
  indexBytes := 1024
  installedBytes := 4096
  runtimeMemoryBytes := 8192
  reserveBytes := 16777216
  packageName := packageName id n
  packageVersion := "1.0.0-r1".toList
  packageSha256 := digestOf 0
  indexSha256 := digestOf 0
  packageUrl := release ++ packageName id n ++ ['-'] ++ "1.0.0-r1".toList ++ ".apk".toList
  indexUrl := release ++ "engines.adb".toList

/-- The engine was updated 47 times; every old slot is retained. -/
def fullRegistry : Registry where
  revision := 48
  slots := (List.range 48).map (packageOf vless)
  selected := [⟨vless, slotId (packageOf vless 47)⟩]

def roomyContext : Context where
  routerId := digestOf 0
  architecture := "x86_64".toList
  bootId := "boot".toList
  worldSha256 := digestOf 0
  catalogSha256 := digestOf 0
  activeGeneration := none
  activeConfigSha256 := none
  stopIntent := 0
  activeEngineId := none
  activeProfileId := none
  legacyProtocols := []
  flashAvailableBytes := 1073741824
  ramAvailableBytes := 1073741824

def requestFor (operation : Operation) (id : Text) (revision : ℤ) : Request where
  operation := some operation
  engineIds := .value [.value id]
  storage := some .auto
  expectedRevision := .value revision
  catalogSha256 := .value (digestOf 0)

theorem packageOf_zero : (packageOf vless 0).Ok := by decide +kernel

theorem packageOf_ok {n : ℕ} (hid : id ∈ IDS) (hn : sha (digestOf n) = true) :
    (packageOf id n).Ok := by
  obtain ⟨-, harch, hver, hpack, hcommit, hdig, hsized, -, -⟩ := packageOf_zero
  have hzero : sha (digestOf 0) = true := hdig _ List.mem_cons_self
  have hrel : releaseBase (release ++ "engines.adb".toList) = some release := by decide
  refine ⟨hid, harch, hver, hpack, hcommit, ?_, hsized, ⟨rfl, release, hrel, rfl, rfl⟩,
    fun _ => rfl⟩
  simp [Entry.digests, packageOf, hn, hzero]

theorem sha_digestOf : ∀ n < 49, sha (digestOf n) = true := by decide

theorem vless_mem : vless ∈ IDS := by decide

theorem digestOf_nodup : ((List.range 48).map digestOf).Nodup := by decide

theorem digestOf_new : digestOf 48 ∉ (List.range 48).map digestOf := by decide

theorem packages_slotIds (k : ℕ) : ((List.range k).map (packageOf vless)).map slotId =
    ((List.range k).map digestOf).map (vless ++ ['-'] ++ Storage.flash.lower ++ ['-'] ++ ·) := by
  rw [List.map_map, List.map_map]
  rfl

/-- The first packages of an engine in its slots, with one of them selected. -/
theorem packages_registry {revision : ℤ} {k n : ℕ} (hrev : number revision 0x7fffffff)
    (hk : k ≤ 48) (hn : n < k) :
    registry (Registry.raw
      ⟨revision, (List.range k).map (packageOf vless), [⟨vless, slotId (packageOf vless n)⟩]⟩) =
    .ok ⟨revision, (List.range k).map (packageOf vless),
      [⟨vless, slotId (packageOf vless n)⟩]⟩ := by
  refine registry_eq_ok.2 ⟨rfl, ⟨hrev, ?_, ?_, ?_, List.nodup_singleton _⟩, by simpa using hk⟩
  · intro slot hs
    obtain ⟨m, hm, rfl⟩ := List.mem_map.1 hs
    exact packageOf_ok vless_mem (sha_digestOf m (by have := List.mem_range.1 hm; omega))
  · have hsub := (List.range_sublist.2 hk).map digestOf
    rw [packages_slotIds]
    exact (hsub.nodup digestOf_nodup).map (List.append_right_injective _)
  · intro row hrow
    obtain rfl := List.mem_singleton.1 hrow
    exact ⟨vless_mem, _, List.mem_map_of_mem (List.mem_range.2 hn), rfl, rfl⟩

theorem fullRegistry_eq : registry fullRegistry.raw = .ok fullRegistry :=
  packages_registry (by decide) le_rfl (by omega)

/-- The selected slot is found by its identifier. -/
theorem find_slotId {slots : List Entry} (h : (slots.map slotId).Nodup) (he : e ∈ slots) :
    (slots.find? fun row => some (slotId row) = some (slotId e)) = some e :=
  Keyed.find?_of_mem h he (by simp) (by simp)

theorem fullRegistry_selected :
    selected fullRegistry.raw vless = .ok (some (packageOf vless 47)) := by
  have hkey : (fullRegistry.selected.find? fun row => row.id = vless).map (·.slotId) =
      some (slotId (packageOf vless 47)) := rfl
  have hmem : packageOf vless 47 ∈ fullRegistry.slots :=
    List.mem_map_of_mem (List.mem_range.2 (by omega))
  have hsound := (registry_eq_ok.1 fullRegistry_eq).2.1
  refine bind_eq_ok.2 ⟨fullRegistry, fullRegistry_eq, ?_⟩
  simp only [hkey, find_slotId hsound.slotIds hmem]
  rfl

def updated : Draft :=
  ({} : Draft).install roomyContext vless (some (packageOf vless 47)) (packageOf vless 48)

theorem updated_step : planStep .update .auto [packageOf vless 48] fullRegistry roomyContext {}
    vless = .ok updated := by
  have hnew : (packageOf vless 47).binarySha256 ≠ (packageOf vless 48).binarySha256 := by decide
  refine bind_eq_ok.2 ⟨_, fullRegistry_selected, ?_⟩
  rw [if_neg (by decide)]
  refine bind_eq_ok.2 ⟨(), require_eq_ok.2 (by simp), ?_⟩
  refine bind_eq_ok.2 ⟨(), require_eq_ok.2 (by simp [packageOf]), ?_⟩
  refine bind_eq_ok.2 ⟨(), require_eq_ok.2 (by simp [packageOf, roomyContext]), ?_⟩
  have hchoose : choose .auto roomyContext {} (([packageOf vless 48].filter fun row =>
      row.id = vless).filter fun row => row.architecture = roomyContext.architecture) =
      some (packageOf vless 48) := by simp [choose, packageOf, roomyContext]
  simp only [hchoose]
  exact bind_eq_ok.2 ⟨(), require_eq_ok.2 (by simp [hnew]), rfl⟩

def updatePlan : Plan where
  routerId := roomyContext.routerId
  planId := "engine-plan-".toList ++ (digestOf 1).take 32
  revision := 48
  bootId := roomyContext.bootId
  createdAtUptimeMs := 1000
  expiresAtUptimeMs := 1000 + 300000
  operation := .update
  engineIds := [vless]
  changes := updated.changes
  budget := updated.budget roomyContext
  impact := updated.impact
  warnings := warn updated.warnings .reconnectRequired (updated.impact = .reconnectRequired)
  owner := digestOf 0
  binding := roomyContext.binding
  artifacts := updated.artifacts
  removals := updated.removals
  planSha256 := some []

/-- The 48th update is planned, and its commit fails. -/
theorem commit_plan_broken :
    registry fullRegistry.raw = .ok fullRegistry ∧
    plan (fun _ => []) (requestFor .update vless 48)
      (catalogOf [packageOf vless 48]) fullRegistry.raw roomyContext (digestOf 0)
      (digestOf 1) 1000 = .ok updatePlan ∧
    ¬ Succeeds (commit fullRegistry.raw updatePlan.artifacts updatePlan.removals
      fullRegistry.revision) := by
  have hok : ∀ e ∈ updated.artifacts, e.Ok := by
    intro e he
    obtain rfl := List.mem_singleton.1 he
    exact packageOf_ok vless_mem (sha_digestOf 48 (by omega))
  have hfold : [vless].foldlM (planStep .update .auto [packageOf vless 48]
      fullRegistry roomyContext) {} = .ok updated := by
    rw [List.foldlM_cons, updated_step]
    rfl
  have hcat : catalog (catalogOf [packageOf vless 48]) = .ok [packageOf vless 48] :=
    catalog_eq_ok.2 ⟨rfl, hok, List.nodup_singleton _, by decide⟩
  refine ⟨fullRegistry_eq, ?_, fun hs => ?_⟩
  · simp only [plan, requestFor, bind_eq_ok, require_eq_ok, pure_eq_ok]
    exact ⟨(), trivial, (), by decide, [vless], by decide, [packageOf vless 48],
      hcat, fullRegistry, fullRegistry_eq, (), by decide, updated, hfold, (),
      by decide, rfl⟩
  · have hlen : (updated.artifacts.foldl Registry.add
        (updated.removals.foldl Registry.remove fullRegistry)).slots.length ≤ 48 :=
      (commit_succeeds fullRegistry_eq (by decide) hok).1 hs
    have hnew : slotId (packageOf vless 48) ∉ fullRegistry.slots.map slotId := by
      rw [fullRegistry, packages_slotIds, List.mem_map]
      rintro ⟨d, hd, he⟩
      have hdig : d = digestOf 48 := List.append_right_injective _ he
      exact digestOf_new (hdig ▸ hd)
    have hslots : (updated.artifacts.foldl Registry.add
        (updated.removals.foldl Registry.remove fullRegistry)).slots =
        fullRegistry.slots ++ [packageOf vless 48] := by
      rw [foldl_add_slots]
      exact insertNew_of_notMem hnew
    rw [hslots] at hlen
    simp [fullRegistry] at hlen

/-- The engine was updated twice, and the old slots are retained. -/
def retainedRegistry : Registry where
  revision := 3
  slots := (List.range 3).map (packageOf vless)
  selected := [⟨vless, slotId (packageOf vless 2)⟩]

theorem retainedRegistry_eq : registry retainedRegistry.raw = .ok retainedRegistry :=
  packages_registry (by decide) (by omega) (by omega)

/-- The third update is planned and committed beside the retained slots. -/
theorem commit_plan_third : ∃ p, plan (fun _ => []) (requestFor .update vless 3)
    (catalogOf [packageOf vless 48]) retainedRegistry.raw roomyContext (digestOf 0) (digestOf 1)
      1000 = .ok p ∧
    Succeeds (commit retainedRegistry.raw p.artifacts p.removals retainedRegistry.revision) := by
  have hp :
      Succeeds (plan (fun _ => []) (requestFor .update vless 3) (catalogOf [packageOf vless 48])
      retainedRegistry.raw roomyContext (digestOf 0) (digestOf 1) 1000) := by decide +kernel
  obtain ⟨p, hp⟩ := hp
  refine ⟨p, hp, (commit_plan_iff hp retainedRegistry_eq).2 ?_⟩
  have hle := (List.length_filter_le
    (fun e => decide (slotId e ∉ retainedRegistry.slots.map slotId)) p.artifacts).trans
      (plan_artifacts_le hp retainedRegistry_eq)
  have hthree : retainedRegistry.slots.length = 3 := rfl
  omega

end Foxhole.Engine
