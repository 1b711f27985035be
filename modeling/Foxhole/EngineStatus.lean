import Foxhole.EngineCommit

/-! What the owner is told of the engines, and what a commit leaves behind. -/
namespace Foxhole.Engine
open Check Text Keyed

inductive Availability where
  | available | unsupportedTarget | notReleased
deriving DecidableEq

/-- What `status` says of one engine. -/
structure StatusRow where
  id : Text
  displayName : Text
  availability : Availability
  installed : Bool
  storage : Option Storage
  version : Option Text
  binarySha256 : Option Text
  active : Bool
  updateAvailable : Bool
  archiveBytes : Option ℤ
  installedBytes : Option ℤ
deriving DecidableEq

structure Status where
  routerId : Text
  revision : ℤ
  catalogSha256 : Text
  activeEngineId : Option Text
  activeProfileId : Option Text
  entries : List StatusRow
deriving DecidableEq

/-- The package that an installed engine is compared with. -/
def candidate (available : List Entry) (context : Context) (id : Text) (current : Option Entry) :
    Option Entry :=
  let matching := available.filter fun row => row.id = id ∧ row.architecture = context.architecture
  (matching.find? fun row => some row.storage = current.map (·.storage)).or matching.head?

def updateAvailable (current candidate : Option Entry) : Bool :=
  match current, candidate with
  | some current, some candidate =>
    current.binarySha256 ≠ candidate.binarySha256 || current.packageVersion ≠
      candidate.packageVersion
  | _, _ => false

def statusRow (available : List Entry) (installed : Registry) (context : Context) (id : Text) :
    Except Err StatusRow := do
  let current ← selected installed.raw id
  let same := available.filter fun row => row.id = id
  let matching := available.filter fun row => row.id = id ∧ row.architecture = context.architecture
  let next := candidate available context id current
  return {
    id := id
    displayName := id
    availability := if matching ≠ [] then .available
      else if same ≠ [] then .unsupportedTarget else .notReleased
    installed := current.isSome
    storage := current.map (·.storage)
    version := current.map (·.version)
    binarySha256 := current.map (·.binarySha256)
    active := context.activeEngineId = some id
    updateAvailable := updateAvailable current next
    archiveBytes := next.map (·.archiveBytes)
    installedBytes := next.map (·.installedBytes) }

def status (rawCatalog : RawCatalog) (rawRegistry : RawRegistry) (context : Context) :
    Except Err Status := do
  let available ← catalog rawCatalog
  let installed ← registry rawRegistry
  let rows ← IDS.mapM (statusRow available installed context)
  return ⟨context.routerId, installed.revision, context.catalogSha256, context.activeEngineId,
    context.activeProfileId, rows⟩

variable {raw : RawRegistry} {r installed : Registry} {e a : Entry} {additions : List Entry}
  {removals : List Text} {id : Text} {fingerprint : Plan → Text} {request : Request}
  {rawCatalog : RawCatalog} {context : Context} {owner nonce : Text} {now expected : ℤ} {p : Plan}
  {available : List Entry}

/-! A registry and what is selected in it. -/

theorem find_selected {rows : List Selected} {row : Selected} (h : (rows.map (·.id)).Nodup)
    (hrow : row ∈ rows) : rows.find? (fun other => other.id = row.id) = some row :=
  Keyed.find?_of_mem h hrow (by simp) (by simp)

theorem selected_eq_some (hr : registry r.raw = .ok r) :
    selected r.raw id = .ok (some e) ↔ e ∈ r.slots ∧ ⟨id, slotId e⟩ ∈ r.selected := by
  obtain ⟨-, hsound, -⟩ := registry_eq_ok.1 hr
  have hsel : selected r.raw id = .ok (r.slots.find? fun row => some (slotId row) =
      (r.selected.find? fun row => row.id = id).map (·.slotId)) := bind_eq_ok.2 ⟨r, hr, rfl⟩
  rw [hsel, Except.ok.injEq]
  constructor
  · intro hfind
    have hkey : some (slotId e) = (r.selected.find? fun row => row.id = id).map (·.slotId) := by
      simpa using List.find?_some hfind
    obtain ⟨row, hrow, hslot⟩ := Option.map_eq_some_iff.1 hkey.symm
    have hid : row.id = id := by simpa using List.find?_some hrow
    have hmem := List.mem_of_find?_eq_some hrow
    refine ⟨List.mem_of_find?_eq_some hfind, ?_⟩
    rw [← hid, ← hslot]
    exact hmem
  · rintro ⟨he, hrow⟩
    have hfind := find_selected hsound.selectedIds hrow
    simp only at hfind
    rw [hfind]
    exact find_slotId hsound.slotIds he

theorem selected_eq_none (hr : registry r.raw = .ok r) (hid : id ∉ r.selected.map (·.id)) :
    selected r.raw id = .ok none := by
  refine bind_eq_ok.2 ⟨r, hr, ?_⟩
  have hnone : r.selected.find? (fun row => row.id = id) = none := by
    rw [List.find?_eq_none]
    intro row hrow he
    exact hid (List.mem_map.2 ⟨row, hrow, by simpa using he⟩)
  simp [hnone]

/-! What the two loops of `commit` do. -/

theorem foldl_remove_slots_eq : (removals.foldl Registry.remove r).slots =
    r.slots.filter fun row => row.id ∉ removals := by
  induction removals generalizing r with
  | nil => simp
  | cons id removals ih =>
    rw [List.foldl_cons, ih, Registry.remove, List.filter_filter]
    refine List.filter_congr fun row _ => ?_
    simp [Bool.and_comm]

theorem foldl_remove_selected : (removals.foldl Registry.remove r).selected =
    r.selected.filter fun row => row.id ∉ removals := by
  induction removals generalizing r with
  | nil => simp
  | cons id removals ih =>
    rw [List.foldl_cons, ih, Registry.remove, List.filter_filter]
    refine List.filter_congr fun row _ => ?_
    simp [Bool.and_comm]

/-- A selection stays when another engine is added. -/
theorem mem_add_selected {row : Selected} (hrow : row ∈ r.selected) (hne : row.id ≠ e.id) :
    row ∈ (r.add e).selected :=
  List.mem_append_left _ (List.mem_filter.2 ⟨hrow, by simpa using hne⟩)

theorem mem_foldl_add_selected {row : Selected} (hrow : row ∈ r.selected)
    (hne : row.id ∉ additions.map (·.id)) : row ∈ (additions.foldl Registry.add r).selected := by
  induction additions generalizing r with
  | nil => exact hrow
  | cons e additions ih =>
    simp only [List.map_cons, List.mem_cons, not_or] at hne
    exact ih (mem_add_selected hrow hne.1) hne.2

/-- Every engine that is added is selected. -/
theorem added_selected (hn : (additions.map (·.id)).Nodup) (ha : a ∈ additions) :
    ⟨a.id, slotId a⟩ ∈ (additions.foldl Registry.add r).selected := by
  induction additions generalizing r with
  | nil => cases ha
  | cons e additions ih =>
    obtain ⟨he, hn⟩ := List.nodup_cons.1 hn
    rw [List.foldl_cons]
    rcases List.mem_cons.1 ha with rfl | ha
    · have hadd : ⟨a.id, slotId a⟩ ∈ (r.add a).selected :=
        List.mem_append_right _ List.mem_cons_self
      exact mem_foldl_add_selected hadd he
    · exact ih hn ha

theorem filter_add_selected {id : Text} (hne : id ≠ e.id) :
    ((r.add e).selected.filter fun row => row.id = id) = r.selected.filter fun row =>
    row.id = id := by
  have hlast : ([⟨e.id, slotId e⟩] : List Selected).filter (fun row => row.id = id) = [] := by
    simpa using Ne.symm hne
  change (List.filter _ (_ ++ [_])) = _
  rw [List.filter_append, List.filter_filter, hlast, List.append_nil]
  refine List.filter_congr fun row _ => ?_
  by_cases hrow : row.id = id
  · simp [hrow, hne]
  · simp [hrow]

theorem filter_foldl_add_selected (hne : id ∉ additions.map (·.id)) :
    ((additions.foldl Registry.add r).selected.filter fun row => row.id = id) =
      r.selected.filter fun row => row.id = id := by
  induction additions generalizing r with
  | nil => rfl
  | cons e additions ih =>
    simp only [List.map_cons, List.mem_cons, not_or] at hne
    rw [List.foldl_cons, ih hne.2, filter_add_selected hne.1]

theorem committed_slots : (installed.committed additions removals).slots =
    additions.foldl (insertNew slotId) (installed.slots.filter fun row => row.id ∉ removals) := by
  rw [← foldl_remove_slots_eq]
  exact foldl_add_slots

theorem committed_selected : (installed.committed additions removals).selected =
    (additions.foldl Registry.add (removals.foldl Registry.remove installed)).selected := rfl

/-! A commit of what was planned. -/

/-- The registry `r` is `installed` with the plan carried out, and the owner is offered no update
of what it has just installed. -/
structure Installs (rawCatalog : RawCatalog) (context : Context)
    (installed r : Registry) (p : Plan) :
    Prop where
  artifacts : ∀ a ∈ p.artifacts, selected r.raw a.id = .ok (some a)
  removed : ∀ id ∈ p.removals, selected r.raw id = .ok none ∧ ∀ slot ∈ r.slots, slot.id ≠ id
  others : ∀ id, id ∉ p.removals → id ∉ p.artifacts.map (·.id) →
    selected r.raw id = selected installed.raw id ∧
    (r.selected.filter fun row => row.id = id) =
    (installed.selected.filter fun row => row.id = id) ∧
    (r.slots.filter fun slot => slot.id = id) = installed.slots.filter fun slot => slot.id = id
  retained : ∀ slot ∈ installed.slots, slot.id ∉ p.removals → slot ∈ r.slots
  revision : r.revision = installed.revision + 1
  upToDate : ∀ now : Context, now.architecture = context.architecture →
    ∃ report, status rawCatalog r.raw now = .ok report ∧
      ∀ row ∈ report.entries, row.id ∈ p.artifacts.map (·.id) → row.updateAvailable = false

theorem selected_congr {r r' : Registry} (hr : registry r.raw = .ok r)
    (hr' : registry r'.raw = .ok r')
    (hrows : (r.selected.filter fun row => row.id = id) = r'.selected.filter fun row => row.id = id)
    (hslots : (r.slots.filter fun slot => slot.id = id) = r'.slots.filter fun slot =>
      slot.id = id) :
    selected r.raw id = selected r'.raw id := by
  have hmem : ∀ row : Selected, row.id = id → (row ∈ r.selected ↔ row ∈ r'.selected) := by
    intro row hrow
    have h := congrArg (row ∈ ·) hrows
    simpa [hrow] using h
  have hslot : ∀ slot : Entry, slot.id = id → (slot ∈ r.slots ↔ slot ∈ r'.slots) := by
    intro slot hid
    have h := congrArg (slot ∈ ·) hslots
    simpa [hid] using h
  by_cases hid : id ∈ r.selected.map (·.id)
  · obtain ⟨row, hrow, rfl⟩ := List.mem_map.1 hid
    obtain ⟨-, slot, hs, hkey, hsid⟩ := (registry_eq_ok.1 hr).2.1.selected row hrow
    have hrow' : (⟨row.id, slotId slot⟩ : Selected) = row := by rw [hkey]
    have hsel : selected r.raw row.id = .ok (some slot) :=
      (selected_eq_some hr).2 ⟨hs, hrow' ▸ hrow⟩
    have hsel' : selected r'.raw row.id = .ok (some slot) :=
      (selected_eq_some hr').2 ⟨(hslot slot hsid).1 hs, hrow' ▸ (hmem row rfl).1 hrow⟩
    rw [hsel, hsel']
  · have hid' : id ∉ r'.selected.map (·.id) := by
      intro h
      obtain ⟨row, hrow, rfl⟩ := List.mem_map.1 h
      exact hid (List.mem_map_of_mem ((hmem row rfl).2 hrow))
    rw [selected_eq_none hr hid, selected_eq_none hr' hid']

/-- An engine that is just what the catalog has for it needs no update. -/
theorem candidate_self (hnd : (available.map catalogKey).Nodup) (ha : a ∈ available)
    (harch : a.architecture = context.architecture) :
    candidate available context a.id (some a) = some a := by
  have hfind : (available.filter fun row => row.id = a.id ∧
      row.architecture = context.architecture).find? (fun row => some row.storage =
        (some a).map (·.storage)) = some a := by
    refine Keyed.find?_of_mem ((List.filter_sublist.map _).nodup hnd)
      (List.mem_filter.2 ⟨ha, by simp [harch]⟩) (by simp) fun b hb hstorage => ?_
    have hmatch := (List.mem_filter.1 hb).2
    simp only [Option.map_some, Option.some.injEq, decide_eq_true_eq] at hmatch hstorage
    rw [catalogKey, catalogKey, hmatch.1, hstorage, hmatch.2, harch]
  simp only [candidate, hfind, Option.some_or]

theorem updateAvailable_self : updateAvailable (some a) (some a) = false := by
  simp [updateAvailable]

theorem selected_succeeds (hr : registry r.raw = .ok r) (id : Text) :
    Succeeds (selected r.raw id) := ⟨_, bind_eq_ok.2 ⟨r, hr, rfl⟩⟩

/-- A row of the report for an engine that is what the catalog has for it. -/
theorem statusRow_upToDate {row : StatusRow} (hnd : (available.map catalogKey).Nodup)
    (ha : a ∈ available) (harch : a.architecture = context.architecture)
    (hsel : selected installed.raw a.id = .ok (some a))
    (h : statusRow available installed context a.id = .ok row) : row.updateAvailable = false := by
  simp only [statusRow, hsel, bind_eq_ok, pure_eq_ok, Except.ok.injEq, exists_eq_left'] at h
  rw [← h]
  change updateAvailable (some a) (candidate available context a.id (some a)) = false
  rw [candidate_self hnd ha harch, updateAvailable_self]

theorem statusRow_id {row : StatusRow} (h : statusRow available installed context id = .ok row) :
    row.id = id := by
  simp only [statusRow, bind_eq_ok, pure_eq_ok] at h
  obtain ⟨_, -, rfl⟩ := h
  rfl

theorem status_upToDate {artifacts : List Entry} (hcat : catalog rawCatalog = .ok available)
    (hr : registry r.raw = .ok r)
    (hsel : ∀ a ∈ artifacts, selected r.raw a.id = .ok (some a))
    (hart : ∀ a ∈ artifacts, a ∈ available ∧ a.architecture = context.architecture) :
    ∃ report, status rawCatalog r.raw context = .ok report ∧
      ∀ row ∈ report.entries, row.id ∈ artifacts.map (·.id) → row.updateAvailable = false := by
  have hnd := (catalog_eq_ok.1 hcat).2.2.1
  obtain ⟨rows, hrows⟩ : Succeeds (IDS.mapM (statusRow available r context)) := by
    refine succeeds_mapM.2 fun id _ => ?_
    obtain ⟨current, hcur⟩ := selected_succeeds hr id
    exact ⟨_, bind_eq_ok.2 ⟨current, hcur, rfl⟩⟩
  refine ⟨_, bind_eq_ok.2 ⟨available, hcat, bind_eq_ok.2 ⟨r, hr, bind_eq_ok.2 ⟨rows, hrows, rfl⟩⟩⟩,
    ?_⟩
  intro row hrow hid
  obtain ⟨id, -, hid'⟩ := (mem_mapM hrows).1 hrow
  obtain ⟨a, ha, haid⟩ := List.mem_map.1 hid
  obtain rfl : a.id = id := haid.trans (statusRow_id hid')
  exact statusRow_upToDate hnd (hart a ha).1 (hart a ha).2 (hsel a ha) hid'

/-- What was planned is installed exactly when no slot stands in the place of a package that is
not the package itself. -/
theorem commit_installs_iff
    (h : plan fingerprint request rawCatalog raw context owner nonce now = .ok p)
    (hr : registry raw = .ok installed)
    (hc : commit raw p.artifacts p.removals expected = .ok r) :
    Installs rawCatalog context installed r p ↔
      ∀ a ∈ p.artifacts, ∀ slot ∈ installed.slots, slotId slot = slotId a → slot = a := by
  obtain ⟨-, -, hok, hnd, hor⟩ := plan_ok h hr
  obtain ⟨available, hcat, hart⟩ := plan_artifacts h hr
  obtain ⟨rfl, hrev, hlen, rfl⟩ := (commit_eq_ok hr hok).1 hc
  obtain ⟨rfl, hsound, hlen₀⟩ := registry_eq_ok.1 hr
  have hcs : (installed.committed p.artifacts p.removals).Sound := hsound.committed hrev hok
  have hr' := registry_eq_ok.2 ⟨rfl, hcs, hlen⟩
  have hkept : ∀ slot ∈ installed.slots, slot.id ∉ p.removals →
      slot ∈ (installed.committed p.artifacts p.removals).slots := by
    intro slot hs hid
    rw [committed_slots]
    exact subset_foldl_insertNew (List.mem_filter.2 ⟨hs, by simpa using hid⟩)
  -- a plan that installs removes nothing
  have hfree : ∀ a ∈ p.artifacts, p.removals = [] := by
    intro a ha
    rcases hor with hrm | hempty
    · exact hrm
    · simp [hempty] at ha
  constructor
  · intro hinstalls a ha slot hs hkey
    obtain ⟨hmem, -⟩ := (selected_eq_some hr').1 (hinstalls.artifacts a ha)
    have hslot := hkept slot hs (by simp [hfree a ha])
    exact List.inj_on_of_nodup_map hcs.slotIds hslot hmem hkey
  · intro hsame
    have hsel : ∀ a ∈ p.artifacts,
        selected (installed.committed p.artifacts p.removals).raw a.id = .ok (some a) := by
      intro a ha
      refine (selected_eq_some hr').2 ⟨?_, added_selected hnd ha⟩
      rw [committed_slots, hfree a ha]
      simp only [List.not_mem_nil, not_false_eq_true, decide_true, List.filter_true]
      by_cases hk : slotId a ∈ installed.slots.map slotId
      · obtain ⟨slot, hs, hkey⟩ := List.mem_map.1 hk
        rw [← hsame a ha slot hs hkey]
        exact subset_foldl_insertNew hs
      · exact mem_foldl_insertNew (slotIds_nodup hok hnd) ha hk
    refine ⟨hsel, ?_, ?_, hkept, installed.committed_revision, ?_⟩
    · intro id hid
      have hempty : p.artifacts = [] := by
        rcases hor with hrm | hempty
        · simp [hrm] at hid
        · exact hempty
      refine ⟨selected_eq_none hr' ?_, ?_⟩
      · rw [committed_selected, hempty, List.foldl_nil, foldl_remove_selected]
        intro hmem
        obtain ⟨row, hrow, rfl⟩ := List.mem_map.1 hmem
        simpa [hid] using (List.mem_filter.1 hrow).2
      · intro slot hs he
        rw [committed_slots, hempty, List.foldl_nil] at hs
        simpa [he, hid] using (List.mem_filter.1 hs).2
    · intro id hrm hadd
      have hrows : ((installed.committed p.artifacts p.removals).selected.filter
          fun row => row.id = id) = installed.selected.filter fun row => row.id = id := by
        rw [committed_selected, filter_foldl_add_selected hadd, foldl_remove_selected,
          List.filter_filter]
        refine List.filter_congr fun row _ => ?_
        by_cases hrow : row.id = id
        · simp [hrow, hrm]
        · simp [hrow]
      have hslots : ((installed.committed p.artifacts p.removals).slots.filter
          fun slot => slot.id = id) = installed.slots.filter fun slot => slot.id = id := by
        rw [committed_slots, filter_foldl_insertNew, List.filter_filter]
        · refine List.filter_congr fun slot _ => ?_
          by_cases hslot : slot.id = id
          · simp [hslot, hrm]
          · simp [hslot]
        · intro a ha
          simpa using fun he => hadd (List.mem_map.2 ⟨a, ha, he⟩)
      exact ⟨selected_congr hr' hr hrows hslots, hrows, hslots⟩
    · intro now hnow
      exact status_upToDate hcat hr' hsel fun a ha => ⟨(hart a ha).1, (hart a ha).2.trans hnow.symm⟩

/-! A package that was built again: another package version around the same slot manifest. -/

def rebuilt : Entry :=
  { packageOf vless 0 with
    packageVersion := "1.0.0-r2".toList
    packageUrl := release ++ packageName vless 0 ++ ['-'] ++ "1.0.0-r2".toList ++ ".apk".toList }

/-- The first build is installed. -/
def builtRegistry : Registry where
  revision := 1
  slots := [packageOf vless 0]
  selected := [⟨vless, slotId (packageOf vless 0)⟩]

theorem builtRegistry_eq : registry builtRegistry.raw = .ok builtRegistry := by
  have hslots : (List.range 1).map (packageOf vless) = [packageOf vless 0] := rfl
  have h := @packages_registry 1 1 0 (by decide) (by omega) Nat.one_pos
  rwa [hslots] at h

theorem rebuilt_planned : (plan (fun _ => []) (requestFor .update vless 1) (catalogOf [rebuilt])
    builtRegistry.raw roomyContext (digestOf 0) (digestOf 1) 1000).toOption.map
      (fun p => (p.artifacts, p.removals)) = some ([rebuilt], []) := by
  decide +kernel

theorem rebuilt_slots : (builtRegistry.committed [rebuilt] []).slots = [packageOf vless 0] := by
  decide +kernel

/-- The new build is planned and its commit succeeds, but the old build stays selected. -/
theorem commit_installs_broken : ∃ p r, registry builtRegistry.raw = .ok builtRegistry ∧
    plan (fun _ => []) (requestFor .update vless 1) (catalogOf [rebuilt]) builtRegistry.raw
      roomyContext (digestOf 0) (digestOf 1) 1000 = .ok p ∧
    commit builtRegistry.raw p.artifacts p.removals builtRegistry.revision = .ok r ∧
    ¬ Installs (catalogOf [rebuilt]) roomyContext builtRegistry r p := by
  have hplanned := rebuilt_planned
  cases hp : plan (fun _ => []) (requestFor .update vless 1) (catalogOf [rebuilt]) builtRegistry.raw
      roomyContext (digestOf 0) (digestOf 1) 1000 with
  | error e => simp [hp, Except.toOption] at hplanned
  | ok p =>
    simp only [hp, Except.toOption, Option.map_some, Option.some.injEq, Prod.mk.injEq] at hplanned
    obtain ⟨hart, hrem⟩ := hplanned
    have hok := (plan_ok hp builtRegistry_eq).2.2.1
    have hslots := rebuilt_slots
    have hc : commit builtRegistry.raw p.artifacts p.removals builtRegistry.revision =
        .ok (builtRegistry.committed p.artifacts p.removals) :=
      (commit_eq_ok builtRegistry_eq hok).2
      ⟨rfl, by decide, by rw [hart, hrem, hslots]; decide, rfl⟩
    refine ⟨p, _, builtRegistry_eq, rfl, hc, fun hinstalls => ?_⟩
    have hsel := hinstalls.artifacts rebuilt (by simp [hart])
    have hsound : (builtRegistry.committed p.artifacts p.removals).Sound :=
      (registry_eq_ok.1 builtRegistry_eq).2.1.committed (by decide) hok
    have hr := registry_eq_ok.2 ⟨rfl, hsound, by rw [hart, hrem, hslots]; decide⟩
    have hmem := ((selected_eq_some hr).1 hsel).1
    rw [hart, hrem, hslots, List.mem_singleton] at hmem
    have hne : rebuilt.packageVersion ≠ (packageOf vless 0).packageVersion := by decide
    exact hne (congrArg Entry.packageVersion hmem)

/-- An engine goes back to a package whose slot is retained. -/
theorem commit_installs_retained : ∃ p r, plan (fun _ => []) (requestFor .update vless 3)
    (catalogOf [packageOf vless 1]) retainedRegistry.raw roomyContext (digestOf 0) (digestOf 1)
      1000 = .ok p ∧
    commit retainedRegistry.raw p.artifacts p.removals 3 = .ok r ∧
    Installs (catalogOf [packageOf vless 1]) roomyContext retainedRegistry r p := by
  have hcommitted : Succeeds (plan (fun _ => []) (requestFor .update vless 3)
      (catalogOf [packageOf vless 1]) retainedRegistry.raw roomyContext (digestOf 0) (digestOf 1)
        1000 >>= fun p => commit retainedRegistry.raw p.artifacts p.removals 3) := by decide +kernel
  obtain ⟨r, hr⟩ := hcommitted
  obtain ⟨p, hp, hc⟩ := bind_eq_ok.1 hr
  refine ⟨p, r, hp, hc, (commit_installs_iff hp retainedRegistry_eq hc).2 ?_⟩
  intro a ha
  obtain ⟨available, hcat, hart⟩ := plan_artifacts hp retainedRegistry_eq
  have havailable : catalog (catalogOf [packageOf vless 1]) = .ok [packageOf vless 1] := by
    decide +kernel
  obtain rfl : [packageOf vless 1] = available := Except.ok.inj (havailable.symm.trans hcat)
  obtain rfl := List.mem_singleton.1 (hart a ha).1
  decide +kernel

end Foxhole.Engine
