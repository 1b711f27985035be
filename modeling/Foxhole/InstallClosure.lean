import Foxhole.InstallPlan

/-! What a compact budget takes: the closure of its roots, every part of it once, each package
bound to one index. -/
namespace Foxhole.InstallPlan
open Check Text Worklist Keyed Relation
open Engine (Entry Storage sha)

/-- The packages that a package asks for. -/
def Universe.asks (packageUniverse : Universe) (n : Text) : Set Text :=
  {d | ∃ requires ∈ packageUniverse.requires, ∃ rows ∈ required requires n, some d ∈ rows}

/-- The kernel, the base client, the packages of the selected modules and that of the selected
server. -/
def selectedRoots (selected : Selection) (mode : Storage) : Set Text :=
  {n | n = kernel ∨ n = client ∨
    (∃ id ∈ selected.protocols, ∃ module ∈ selected.platform.clients,
      module.id = id ∧ module.storage = mode ∧ n = module.entry.packageName) ∨
    selected.includeServer = true ∧ ∃ offer ∈ selected.platform.server,
      ∃ declared ∈ offer.modes.lookup mode, n = declared.name}

def ownPackages : List Text :=
  ["foxcore-cli", "foxcore-cli-ram", "foxhole-openwrt-client", "hysteria",
    "hysteria-server-ram"].map String.toList

/-- A package that the product's own release holds: one of a fixed name, or of an engine. -/
def productPackage (n : Text) : Prop := n ∈ ownPackages ∨ enginePrefix <+: n

/-- Every size is a number, and the total is their sum. -/
def Counts (total : Option ℤ) (sizes : List (Option ℤ)) : Prop :=
  ∃ ns : List ℤ, sizes = ns.map some ∧ total = some ns.sum

section Worklist
variable {known : Text → Prop} [DecidablePred known] {seen names roots wanted rows : List Text}
  {value : Option Text} {n : Text} {requires : Table (Option (List (Option Text)))}
  {packages : List Package} {inventoried : Inventory}

theorem newName_eq_ok : newName known seen value = .ok n ↔
    value = some n ∧ (packageNameShape.accepts n = true ∧ known n) ∧ n ∉ seen := by
  unfold newName
  cases value with
  | none => simp
  | some m =>
    simp only [bind_eq_ok, require_eq_ok, pure_eq_ok, Option.some.injEq]
    constructor
    · rintro ⟨-, ⟨hshape, hnew, hknown⟩, rfl⟩
      exact ⟨rfl, ⟨hshape, hknown⟩, hnew⟩
    · rintro ⟨rfl, ⟨hshape, hknown⟩, hnew⟩
      exact ⟨(), ⟨hshape, hnew, hknown⟩, rfl⟩

theorem scan_newName {values : List (Option Text)}
    (h : scan (fun n => [n]) (newName known) [] values = .ok rows) :
    values = rows.map some ∧ rows.Nodup := by
  obtain ⟨hmap, -, hnodup⟩ :=
    (scan_eq_ok_iff (k := id) (g := some) fun _ _ _ => @newName_eq_ok known _ _ _ _).1 h
  exact ⟨hmap, by simpa using hnodup⟩

theorem dependencies_eq_ok (h : dependencies names requires n = .ok rows) :
    n ∈ names ∧ required requires n = some (rows.map some) := by
  simp only [dependencies, bind_eq_ok, require_eq_ok] at h
  obtain ⟨-, hn, h⟩ := h
  refine ⟨hn, ?_⟩
  cases hrows : required requires n with
  | none => simp [hrows] at h
  | some values =>
    simp only [hrows, bind_eq_ok, require_eq_ok] at h
    obtain ⟨-, -, h⟩ := h
    rw [(scan_newName h).1]

/-- The wanted names are the least set with the roots that has what its packages ask for, and
each of them is the name of one package. -/
theorem closure_eq_ok (h : closure inventoried roots = .ok wanted) :
    IsLeast (Closed (fun n => {d | ∃ rows ∈ required inventoried.requires n, some d ∈ rows})
      {r | r ∈ kernel :: roots}) {n | n ∈ wanted} ∧
    ∃ names : List Text, inventoried.packages.map (·.name) = names.map some ∧ names.Nodup ∧
      ∀ n ∈ wanted, n ∈ names := by
  simp only [closure, bind_eq_ok, pure_eq_ok] at h
  obtain ⟨names, hnames, done, hdone, rfl⟩ := h
  obtain ⟨hmap, hnodup⟩ := scan_newName hnames
  refine ⟨explore_least (fun n rows hrows => ?_) hdone, names, hmap, hnodup, fun n hn => ?_⟩
  · obtain ⟨-, hrequired⟩ := dependencies_eq_ok hrows
    ext d
    simp [hrequired]
  · obtain ⟨rows, hrows⟩ := (explore_roots hdone).2 n hn
    exact (dependencies_eq_ok hrows).1

end Worklist

section Roots
variable {selected : Selection} {packageUniverse : Universe} {directory : Directory}
  {mode : Storage} {modules : List Client} {server : Option Server} {n id : Text} {module : Client}

theorem single_eq_ok {α : Type} {rows : List α} {p : α → Bool} {row : α}
    (h : single rows p = .ok row) : rows.filter p = [row] := by
  unfold single at h
  split at h
  · cases h
    assumption
  · cases h

theorem payload_eq_ok (h : payload selected.platform directory mode id = .ok module) :
    selected.platform.clients.filter (fun row => row.id = id && row.storage = mode) =
      [module] := by
  simp only [payload, bind_eq_ok, pure_eq_ok] at h
  obtain ⟨found, hfound, producer, -, caps, -, slot, -, -, -, -, -, -, -, rfl⟩ := h
  exact single_eq_ok hfound

/-- The modules are the selected clients for the storage. -/
theorem mem_compactPayloads (h : compactPayloads selected directory mode = .ok modules) :
    module ∈ modules ↔ ∃ id ∈ selected.protocols, ∃ row ∈ selected.platform.clients,
      row.id = id ∧ row.storage = mode ∧ row = module := by
  simp only [compactPayloads, bind_eq_ok, pure_eq_ok] at h
  obtain ⟨found, hfound, catalog, -, -, -, -, -, -, -, rfl⟩ := h
  rw [mem_mapM hfound]
  refine exists_congr fun id => and_congr_right fun hid => ?_
  obtain ⟨row, hrow⟩ := succeeds_mapM.1 ⟨_, hfound⟩ id hid
  have hfilter := payload_eq_ok hrow
  have hmem : ∀ c, c ∈ selected.platform.clients ∧ c.id = id ∧ c.storage = mode ↔ c = row := by
    intro c
    have := congrArg (c ∈ ·) hfilter
    simpa [List.mem_filter] using this
  rw [hrow]
  constructor
  · rintro h
    cases h
    obtain ⟨hin, hid', hmode⟩ := (hmem module).2 rfl
    exact ⟨module, hin, hid', hmode, rfl⟩
  · rintro ⟨c, hin, hid', hmode, rfl⟩
    rw [(hmem c).1 ⟨hin, hid', hmode⟩]

/-- The server is the declared one, where one is selected. -/
theorem compactServer_eq_ok (h : compactServer selected packageUniverse directory mode =
    .ok server) :
    (∃ row ∈ server, row.name = n) ↔ selected.includeServer = true ∧
      ∃ offer ∈ selected.platform.server, ∃ declared ∈ offer.modes.lookup mode,
        n = declared.name := by
  unfold compactServer at h
  split at h
  · rename_i hinclude
    split at h
    · rename_i offer hoffer
      split at h
      · rename_i declared found hdeclared _
        simp only [bind_eq_ok, require_eq_ok, pure_eq_ok] at h
        obtain ⟨-, -, -, ⟨hname, -⟩, producer, -, -, -, -, -, rfl⟩ := h
        simp [hinclude, hoffer, hdeclared, hname, eq_comm]
      · cases h
    · cases h
  · rename_i hinclude
    cases h
    simp [hinclude]

theorem rootNames_eq (hmodules : compactPayloads selected directory mode = .ok modules)
    (hserver : compactServer selected packageUniverse directory mode = .ok server) :
    {r | r ∈ kernel :: rootNames modules server} = selectedRoots selected mode := by
  ext n
  have hname : n ∈ server.toList.map (·.name) ↔ ∃ row ∈ server, row.name = n := by
    simp [Option.mem_def]
  have hpackage : n ∈ modules.map (·.entry.packageName) ↔
      ∃ id ∈ selected.protocols, ∃ row ∈ selected.platform.clients,
        row.id = id ∧ row.storage = mode ∧ n = row.entry.packageName := by
    rw [List.mem_map]
    constructor
    · rintro ⟨module, hmodule, rfl⟩
      obtain ⟨id, hid, row, hrow, hsame, hmode, rfl⟩ := (mem_compactPayloads hmodules).1 hmodule
      exact ⟨id, hid, row, hrow, hsame, hmode, rfl⟩
    · rintro ⟨id, hid, row, hrow, hsame, hmode, rfl⟩
      exact ⟨row, (mem_compactPayloads hmodules).2 ⟨id, hid, row, hrow, hsame, hmode, rfl⟩, rfl⟩
  simp only [rootNames, selectedRoots, Set.mem_ofPred_eq, List.mem_cons, List.cons_append,
    List.mem_append, hpackage, hname, compactServer_eq_ok hserver]

end Roots

section Authentication
variable {value result : Budget} {item : Index} {items : List Index} {met met' : Indexed}
  {role file k : Text} {roles roles' : Roles} {seen seen' own : List Text}
  {keys : List (Option Text)}

theorem mem_of_lookup {table : Roles} {v : Text} (h : table.lookup k = some v) :
    (k, v) ∈ table := by
  obtain ⟨before, after, rfl, -⟩ := List.lookup_eq_some_iff.1 h
  simp

/-- A key is put into the table, or is there with the same role. -/
theorem keyStep_eq_ok {key : Option Text}
    (h : keyStep value role (seen, roles) key = .ok (seen', roles'))
    (hroles : (roles.map (·.1)).Nodup) : key.isSome = true ∧ (roles'.map (·.1)).Nodup ∧
      ∀ row, row ∈ roles' ↔ row ∈ roles ∨ some row.1 = key ∧ row.2 = role := by
  unfold keyStep at h
  cases key with
  | none => simp at h
  | some key =>
    simp only [bind_eq_ok, require_eq_ok, pure_eq_ok, Prod.mk.injEq] at h
    obtain ⟨-, -, -, hold, -, rfl⟩ := h
    refine ⟨rfl, ?_, fun row => ?_⟩
    · by_cases hmem : key ∈ roles.map (·.1)
      · rwa [keys_assign, if_pos hmem]
      · rw [keys_assign, if_neg hmem, List.nodup_append]
        refine ⟨hroles, by simp, ?_⟩
        rintro a ha b hb rfl
        exact hmem (List.mem_singleton.1 hb ▸ ha)
    · by_cases hmem : key ∈ roles.map (·.1)
      · -- the old role is the same, so nothing changes
        obtain ⟨⟨key', old⟩, hrow, rfl⟩ := List.mem_map.1 hmem
        obtain ⟨found, hfound⟩ : ∃ found, roles.lookup key' = some found :=
          Option.isSome_iff_exists.1 (List.lookup_isSome_iff.2 ⟨_, hrow, by simp⟩)
        obtain rfl : found = role := hold found hfound
        have hsame := mem_of_lookup hfound
        rw [assign_of_mem hroles hsame]
        refine ⟨Or.inl, ?_⟩
        rintro (h | ⟨hkey, hrole⟩)
        · exact h
        · rw [show row = (key', found) from Prod.ext (Option.some.inj hkey) hrole]
          exact hsame
      · rw [assign_of_notMem hmem, List.mem_append, List.mem_singleton, Prod.ext_iff,
          Option.some.injEq]

theorem foldlM_keyStep (h : keys.foldlM (keyStep value role) (seen, roles) = .ok (seen', roles'))
    (hroles : (roles.map (·.1)).Nodup) : (∀ key ∈ keys, key.isSome = true) ∧
      (roles'.map (·.1)).Nodup ∧
      ∀ row, row ∈ roles' ↔ row ∈ roles ∨ some row.1 ∈ keys ∧ row.2 = role := by
  induction keys generalizing seen roles with
  | nil =>
    simp only [List.foldlM_nil, pure_eq_ok, Prod.mk.injEq] at h
    obtain ⟨-, rfl⟩ := h
    exact ⟨by simp, hroles, by simp⟩
  | cons key keys ih =>
    simp only [List.foldlM_cons, bind_eq_ok] at h
    obtain ⟨⟨seen1, roles1⟩, hstep, h⟩ := h
    obtain ⟨hsome, hnodup, hmem⟩ := keyStep_eq_ok hstep hroles
    obtain ⟨hall, hnodup', hmem'⟩ := ih h hnodup
    refine ⟨List.forall_mem_cons.2 ⟨hsome, hall⟩, hnodup', fun row => ?_⟩
    rw [hmem', hmem, List.mem_cons, or_and_right, or_assoc]

/-- What the loop over the indexes has checked of one. -/
structure Index.Checked (item : Index) : Prop where
  role : ∃ role ∈ [foxhole, upstream], item.role = some role
  bytes : sized 8388608 item.bytes = true
  keys : item.keys.map some = item.trustKeyFiles.getD []

/-- The loop over the indexes: files of their own, and every key with the role of the indexes
that name it. -/
structure Indexed.Holds (items : List Index) (met : Indexed) : Prop where
  files : items.map (·.file) = met.files.map some
  nodup : met.files.Nodup
  keys : (met.roles.map (·.1)).Nodup
  roles : ∀ row, row ∈ met.roles ↔
    ∃ item ∈ items, row.1 ∈ item.keys ∧ item.role = some row.2
  items : ∀ item ∈ items, item.Checked

theorem Indexed.Holds.step (hmet : met.Holds items) (h : indexStep value met item = .ok met') :
    met'.Holds (items ++ [item]) := by
  unfold indexStep at h
  split at h
  · rename_i file role url keys hfile hrole _ hkeys
    simp only [bind_eq_ok, require_eq_ok, pure_eq_ok] at h
    obtain ⟨-, ⟨-, hnew, -, hbytes, hkind, -⟩, -, -, ⟨seen, roles⟩, hfold, rfl⟩ := h
    obtain ⟨hsome, hnodup, hmem⟩ := foldlM_keyStep hfold hmet.keys
    have hitem : item.keys.map some = keys := by
      rw [Index.keys, hkeys, Option.getD_some, List.map_filterMap]
      refine (List.filterMap_congr fun key hkey => ?_).trans List.filterMap_some
      obtain ⟨k, rfl⟩ := Option.isSome_iff_exists.1 (hsome key hkey)
      rfl
    have hin : ∀ k, some k ∈ keys ↔ k ∈ item.keys := by
      intro k
      rw [← hitem]
      simp
    refine ⟨by simp [hmet.files, hfile], ?_, hnodup, fun row => ?_, ?_⟩
    · rw [List.nodup_append]
      refine ⟨hmet.nodup, by simp, ?_⟩
      rintro a ha b hb rfl
      exact hnew (List.mem_singleton.1 hb ▸ ha)
    · rw [hmem, hmet.roles, hin]
      simp only [List.mem_append, List.mem_singleton, or_and_right, exists_or, exists_eq_left,
        hrole, Option.some.injEq]
      rw [eq_comm (a := role)]
    · intro other hother
      rcases List.mem_append.1 hother with hother | hother
      · exact hmet.items other hother
      · obtain rfl := List.mem_singleton.1 hother
        exact ⟨⟨role, hkind, hrole⟩, hbytes, by rw [hitem, hkeys]; rfl⟩
  · cases h

theorem foldlM_indexStep (h : items.foldlM (indexStep value) ⟨[], []⟩ = .ok met) :
    met.Holds items := by
  refine foldlM_prefix (I := fun items met => Indexed.Holds items met)
    (fun pre met item met' hmet hstep => hmet.step hstep) ?_ h
  exact ⟨rfl, by simp, by simp, by simp, by simp⟩

/-- No key is named by indexes of two roles. -/
theorem Indexed.Holds.same_role (hmet : met.Holds items) {i j : Index} (hi : i ∈ items)
    (hj : j ∈ items) (hki : k ∈ i.keys) (hkj : k ∈ j.keys) : i.role = j.role := by
  obtain ⟨r, -, hr⟩ := (hmet.items i hi).role
  obtain ⟨q, -, hq⟩ := (hmet.items j hj).role
  have hrow := (hmet.roles (k, r)).2 ⟨i, hi, hki, hr⟩
  have hrow' := (hmet.roles (k, q)).2 ⟨j, hj, hkj, hq⟩
  have hsame : (k, r) = (k, q) := List.inj_on_of_nodup_map hmet.keys hrow hrow' rfl
  rw [hr, hq, (Prod.mk.inj hsame).2]

end Authentication

section Authentic
variable {value result : Budget} {roles : Roles} {own : List Text} {n : Text}

/-- What the loop over the modules asks of each. -/
theorem scan_ownModule {wanted seen : List Text} {modules found : List Client}
    (h : scan (fun module => [module.id]) (ownModule value wanted) seen modules = .ok found) :
    ∀ module ∈ modules, module.Ok value.architecture := by
  have hstep : ∀ seen module module', ownModule value wanted seen module = .ok module' →
      module = module' ∧ module.Ok value.architecture ∧ module.id ∉ seen := by
    intro seen module module' h
    simp only [ownModule, bind_eq_ok, require_eq_ok, pure_eq_ok] at h
    obtain ⟨-, hok, -, ⟨hnew, -⟩, rfl⟩ := h
    exact ⟨rfl, hok, hnew⟩
  obtain rfl := scan_eq_self (fun seen a b hb => (hstep seen a b hb).1) h
  have hscanned : Scanned (fun module => [module.id])
      (fun _ module => module.Ok value.architecture) seen modules := by
    refine scanned_of_scan (fun seen a b hb => ?_) h
    obtain ⟨rfl, hok, hnew⟩ := hstep seen a b hb
    exact ⟨hok, List.singleton_disjoint.2 hnew⟩
  exact hscanned.forall_mem fun _ _ hok => hok

theorem prefix_package {entry : Entry} : enginePrefix <+: entry.package := by
  unfold Entry.package enginePrefix
  generalize "foxcore-engine-".toList = tag
  simp only [List.append_assoc]
  exact List.prefix_append tag _

/-- Of the packages, the product's own are those that the budget names. -/
theorem compactOwn_eq_ok (h : compactOwn value = .ok own) :
    own = ownNames value ∧ ∀ item ∈ value.packages, ∀ n ∈ item.name, n ∈ own ↔
      productPackage n := by
  simp only [compactOwn, bind_eq_ok, require_eq_ok, pure_eq_ok] at h
  obtain ⟨-, -, -, -, wanted, -, -, -, modules, hmodules, -, -, _, hserver, -, -, -, hreserved, -,
    -, base, -, binding, -, -, -, -, -, -, -, rfl⟩ := h
  refine ⟨rfl, fun item hitem n hn => ⟨fun hown => ?_, fun hproduct => ?_⟩⟩
  · simp only [ownNames, List.cons_append, List.mem_cons, List.mem_append, List.mem_map] at hown
    rcases hown with hclient | ⟨module, hmodule, hpackage⟩ | hown
    · rw [hclient]
      exact Or.inl (by decide)
    · right
      obtain ⟨-, -, -, -, hname, -⟩ := scan_ownModule hmodules module hmodule
      rw [← hpackage, hname]
      exact prefix_package
    · refine Or.inl ?_
      unfold ownServer at hserver
      split at hserver
      · rename_i hinclude
        obtain ⟨server, hmem, hname, -⟩ := require_eq_ok.1 hserver
        rw [Option.mem_def] at hmem
        rw [if_pos hinclude, hmem] at hown
        obtain rfl : n = server.name := by simpa using hown
        rw [hname]
        cases value.mode <;> decide
      · rename_i hinclude
        rw [if_neg hinclude] at hown
        cases hown
  · by_contra hown
    refine hreserved item hitem ?_
    rcases hproduct with hfixed | hprefix
    · simp only [ownPackages, List.map_cons, List.map_nil, List.mem_cons, List.not_mem_nil,
        or_false] at hfixed
      rcases hfixed with hfixed | hfixed | hfixed | hfixed | hfixed
      · exact Or.inl (hfixed ▸ hn)
      · exact Or.inr (Or.inl (hfixed ▸ hn))
      · exact absurd (hfixed ▸ List.mem_append_left _ List.mem_cons_self) hown
      · exact Or.inr (Or.inr ⟨n, hn, Or.inr (Or.inl hfixed), hown⟩)
      · exact Or.inr (Or.inr ⟨n, hn, Or.inr (Or.inr hfixed), hown⟩)
    · exact Or.inr (Or.inr ⟨n, hn, Or.inl hprefix, hown⟩)

/-- The index that a package is bound to. -/
def Budget.Binds (value : Budget) (item : Package) (repo : Index) : Prop :=
  repo ∈ value.repositoryIndexes ∧ ∃ binding ∈ value.packageAuthentications,
    binding.file = item.file ∧ binding.name = item.name ∧ binding.indexFile = repo.file

/-- What `compact_authentication` ensures of a budget. -/
structure Authentic (value : Budget) : Prop where
  files : ∃ packageFiles indexFiles keyFiles : List Text,
    value.packages.map (·.file) = packageFiles.map some ∧
    value.repositoryIndexes.map (·.file) = indexFiles.map some ∧
    value.trustKeys.map (·.file) = keyFiles.map some ∧
    (packageFiles ++ (indexFiles ++ keyFiles)).Nodup
  keys : ∀ k, (∃ key ∈ value.trustKeys, key.file = some k) ↔
    ∃ repo ∈ value.repositoryIndexes, k ∈ repo.keys
  roles : ∀ repo ∈ value.repositoryIndexes, ∀ other ∈ value.repositoryIndexes,
    ∀ k ∈ repo.keys, k ∈ other.keys → repo.role = other.role
  bound : ∀ item ∈ value.packages, ∃! repo, value.Binds item repo
  bindings : ∀ binding ∈ value.packageAuthentications, ∃ item ∈ value.packages,
    item.file = binding.file ∧ item.name = binding.name
  product : ∀ item ∈ value.packages, ∀ repo, value.Binds item repo →
    (repo.role = some foxhole ↔ ∃ n ∈ item.name, productPackage n)
  indexBytes : ∀ repo ∈ value.repositoryIndexes, repo.bytes.isSome = true
  keyBytes : ∀ key ∈ value.trustKeys, key.bytes.isSome = true

theorem isSome_of_sized {maximum : ℤ} {size : Option ℤ} (h : sized maximum size = true) :
    size.isSome = true := by
  cases size with
  | none => cases h
  | some n => rfl

theorem isSome_of_name {v : Option Text} (h : name v = true) : v.isSome = true := by
  cases v with
  | none => cases h
  | some t => rfl

theorem toList_getD {v : Option Text} (h : v.isSome = true) : v.getD [] ∈ v.toList := by
  obtain ⟨t, rfl⟩ := Option.isSome_iff_exists.1 h
  simp

/-- The files of rows that all have one. -/
theorem files_of_isSome {α : Type} (file : α → Option Text) {rows : List α}
    (h : ∀ row ∈ rows, (file row).isSome = true) :
    ∃ files : List Text, rows.map file = files.map some := by
  refine ⟨rows.map fun row => (file row).getD [], ?_⟩
  rw [List.map_map]
  refine List.map_congr_left fun row hrow => ?_
  obtain ⟨f, hf⟩ := Option.isSome_iff_exists.1 (h row hrow)
  simp [hf]

/-- What the loop over the keys has checked. -/
theorem scan_recordKey {keys found : List Key}
    (h : scan keyMarks (recordKey value roles) [] keys = .ok found) : keys = found ∧
      (keys.map (·.file)).Nodup ∧ ∀ key ∈ keys, key.bytes.isSome = true ∧
        ∃ file, key.file = some file ∧ file ∈ roles.map (·.1) := by
  have hstep : ∀ seen key key', recordKey value roles seen key = .ok key' → key = key' ∧
      (key.bytes.isSome = true ∧ ∃ file, key.file = some file ∧ file ∈ roles.map (·.1)) ∧
        (keyMarks key).Disjoint seen := by
    intro seen key key' h
    simp only [recordKey, bind_eq_ok, require_eq_ok, pure_eq_ok] at h
    obtain ⟨-, ⟨-, -, hbytes, hnew⟩, -, ⟨file, hfile, -, role, hrole, -⟩, rfl⟩ := h
    exact ⟨rfl, ⟨isSome_of_sized hbytes, file, hfile, List.mem_map_of_mem (mem_of_lookup hrole)⟩,
      fun mark hmark => hnew mark hmark⟩
  obtain rfl := scan_eq_self (fun seen a b hb => (hstep seen a b hb).1) h
  have hscanned : Scanned keyMarks (fun _ key => key.bytes.isSome = true ∧
      ∃ file, key.file = some file ∧ file ∈ roles.map (·.1)) [] keys := by
    refine scanned_of_scan (fun seen a b hb => ?_) h
    obtain ⟨rfl, hkey⟩ := hstep seen a b hb
    exact hkey
  have hall := hscanned.forall_mem fun _ _ hkey => hkey
  refine ⟨rfl, hscanned.nodup_map_mem (k := fun file => (false, file.getD [])) ?_, hall⟩
  intro key hkey
  obtain ⟨-, file, hfile, -⟩ := hall key hkey
  simp [keyMarks, hfile]

/-- What the loop over the packages has checked. -/
theorem scan_recordPackage {seen : List Text} {packages found : List Package}
    (h : scan (fun item => item.file.toList) recordPackage seen packages = .ok found) :
    packages = found ∧ (packages.map (·.file)).Nodup ∧
      ∀ item ∈ packages, ∃ file, item.file = some file ∧ file ∉ seen := by
  have hstep : ∀ seen item item', recordPackage seen item = .ok item' → item = item' ∧
      item.file.isSome = true ∧ item.file.toList.Disjoint seen := by
    intro seen item item' h
    simp only [recordPackage, bind_eq_ok, require_eq_ok, pure_eq_ok] at h
    obtain ⟨-, ⟨hname, hnew, -⟩, rfl⟩ := h
    exact ⟨rfl, isSome_of_name hname, fun f hf => hnew f (Option.mem_toList.1 hf)⟩
  obtain rfl := scan_eq_self (fun seen a b hb => (hstep seen a b hb).1) h
  have hscanned : Scanned (fun item : Package => item.file.toList)
      (fun _ item => item.file.isSome = true) seen packages := by
    refine scanned_of_scan (fun seen a b hb => ?_) h
    obtain ⟨rfl, hitem⟩ := hstep seen a b hb
    exact hitem
  have hall := hscanned.forall_mem fun _ _ hitem => hitem
  refine ⟨rfl, hscanned.nodup_map_mem (k := fun file => file.getD [])
    fun item hitem => toList_getD (hall item hitem), fun item hitem => ?_⟩
  obtain ⟨file, hfile⟩ := Option.isSome_iff_exists.1 (hall item hitem)
  exact ⟨file, hfile, hscanned.disjoint item hitem (by simp [hfile])⟩

/-- What the loop over the bindings has checked of one. -/
def Bound (value : Budget) (own : List Text) (binding : Binding) : Prop :=
  ∃ file, binding.file = some file ∧ ∃ record ∈ packageAt value file,
    ∃ indexFile, binding.indexFile = some indexFile ∧ ∃ repo ∈ indexAt value indexFile,
      boundTo own binding record repo

theorem scan_bindPackage {bindings found : List Binding}
    (h : scan (fun item => item.file.toList) (bindPackage value own) [] bindings = .ok found) :
    (bindings.map (·.file)).Nodup ∧ ∀ binding ∈ bindings, Bound value own binding := by
  have hstep : ∀ seen binding binding', bindPackage value own seen binding = .ok binding' →
      binding = binding' ∧ Bound value own binding ∧ binding.file.toList.Disjoint seen := by
    intro seen binding binding' h
    simp only [bindPackage, bind_eq_ok, require_eq_ok, pure_eq_ok] at h
    obtain ⟨-, ⟨-, file, hfile, hnew, record, hrecord, indexFile, hindex, repo, hrepo, hbound⟩,
      rfl⟩ := h
    refine ⟨rfl, ⟨file, hfile, record, hrecord, indexFile, hindex, repo, hrepo, hbound⟩, ?_⟩
    rw [Option.mem_def] at hfile
    simpa [hfile] using hnew
  obtain rfl := scan_eq_self (fun seen a b hb => (hstep seen a b hb).1) h
  have hscanned : Scanned (fun item : Binding => item.file.toList)
      (fun _ binding => Bound value own binding) [] bindings := by
    refine scanned_of_scan (fun seen a b hb => ?_) h
    obtain ⟨rfl, hbinding⟩ := hstep seen a b hb
    exact hbinding
  have hall := hscanned.forall_mem fun _ _ hbinding => hbinding
  refine ⟨hscanned.nodup_map_mem (k := fun file => file.getD []) fun binding hbinding => ?_, hall⟩
  obtain ⟨file, hfile, -⟩ := hall binding hbinding
  exact toList_getD (by simp [hfile])

theorem nodup_of_map_some {files : List Text} {rows : List (Option Text)}
    (h : rows = files.map some) (hnodup : rows.Nodup) : files.Nodup :=
  List.Nodup.of_map some (h ▸ hnodup)

theorem mem_files {α : Type} {rows : List α} {file : α → Option Text} {files : List Text} {f : Text}
    (h : rows.map file = files.map some) : f ∈ files ↔ ∃ row ∈ rows, file row = some f := by
  rw [← List.mem_map, h, List.mem_map]
  simp

/-- Rows of two tables with the same files, as many in the second, have partners there. -/
theorem exists_same_file {α β : Type} {rows : List α} (file : α → Option Text) {others : List β}
    {file' : β → Option Text} (hnodup : (others.map file').Nodup)
    (hsub : ∀ other ∈ others, ∃ row ∈ rows, file row = file' other)
    (hlength : others.length = rows.length) :
    ∀ row ∈ rows, ∃ other ∈ others, file' other = file row := by
  intro row hrow
  have hsubset : others.map file' ⊆ rows.map file := by
    intro f hf
    obtain ⟨other, hother, rfl⟩ := List.mem_map.1 hf
    obtain ⟨row, hrow, hfile⟩ := hsub other hother
    exact List.mem_map.2 ⟨row, hrow, hfile⟩
  have hperm : (others.map file').Perm (rows.map file) :=
    (hnodup.subperm hsubset).perm_of_length_le (by simp [hlength])
  exact List.mem_map.1 (hperm.mem_iff.2 (List.mem_map_of_mem hrow))

/-- The bindings are one to one with the packages, and the index of each is the only one of its
file. -/
theorem exists_unique_binds (hindexes : (value.repositoryIndexes.map (·.file)).Nodup)
    (hpackages : (value.packages.map (·.file)).Nodup)
    (hnodup : (value.packageAuthentications.map (·.file)).Nodup)
    (hbound : ∀ binding ∈ value.packageAuthentications, Bound value own binding)
    (hlength : value.packageAuthentications.length = value.packages.length) :
    ∀ item ∈ value.packages, ∃ repo, value.Binds item repo ∧
      (repo.role = some foxhole ↔ ∃ n ∈ item.name, n ∈ own) ∧
        ∀ other, value.Binds item other → other = repo := by
  intro item hitem
  have hrecord : ∀ binding ∈ value.packageAuthentications, ∃ row ∈ value.packages,
      row.file = binding.file := by
    intro binding hbinding
    obtain ⟨file, hfile, record, hrecord, -⟩ := hbound binding hbinding
    exact ⟨record, List.mem_of_find?_eq_some hrecord,
      (by simpa using List.find?_some hrecord : record.file = some file).trans hfile.symm⟩
  obtain ⟨binding, hbinding, hsame⟩ := exists_same_file Package.file hnodup hrecord
    hlength item hitem
  obtain ⟨file, hfile, record, hfound, indexFile, hindexFile, repo, hrepo, hname, -, -, hrole⟩ :=
    hbound binding hbinding
  have hfiled : record.file = some file := by simpa using List.find?_some hfound
  have hindexed : repo.file = some indexFile := by simpa using List.find?_some hrepo
  obtain rfl : record = item := List.inj_on_of_nodup_map hpackages
    (List.mem_of_find?_eq_some hfound) hitem (hfiled.trans (hfile.symm.trans hsame))
  have hmem : repo ∈ value.repositoryIndexes := List.mem_of_find?_eq_some hrepo
  refine ⟨repo, ⟨hmem, binding, hbinding, hsame, hname, hindexFile.trans hindexed.symm⟩, hrole, ?_⟩
  rintro other ⟨hother, binding', hbinding', hsame', -, hindex'⟩
  obtain rfl : binding' = binding :=
    List.inj_on_of_nodup_map hnodup hbinding' hbinding (hsame'.trans hsame.symm)
  exact List.inj_on_of_nodup_map hindexes hother hmem
    (hindex'.symm.trans (hindexFile.trans hindexed.symm))

theorem compactAuthentication_eq_ok (h : compactAuthentication value = .ok result) :
    Authentic value ∧ result = { value with rootPackages := sort value.rootPackages } := by
  simp only [compactAuthentication, bind_eq_ok, require_eq_ok, pure_eq_ok] at h
  obtain ⟨own, hown, -, -, -, ⟨-, -, hcount⟩, met, hfold, -, -, -, hkeyCount, trusted, htrusted, -,
    -, -, hapart, packages, hpackages, bound, hbound, -, -, -, -, rfl⟩ := h
  refine ⟨?_, rfl⟩
  have hmet := foldlM_indexStep hfold
  obtain ⟨-, hproduct⟩ := compactOwn_eq_ok hown
  obtain ⟨rfl, hkeyNodup, hkeys⟩ := scan_recordKey htrusted
  obtain ⟨rfl, hpackageNodup, hpackageFiles⟩ := scan_recordPackage hpackages
  obtain ⟨hboundNodup, hbindings⟩ := scan_bindPackage hbound
  obtain ⟨packageFiles, hpf⟩ := files_of_isSome Package.file fun item hitem => by
      obtain ⟨file, hfile, -⟩ := hpackageFiles item hitem
      simp [hfile]
  obtain ⟨keyFiles, hkf⟩ := files_of_isSome Key.file fun key hkey => by
      obtain ⟨-, file, hfile, -⟩ := hkeys key hkey
      simp [hfile]
  have hkeyFile : ∀ f ∈ keyFiles, f ∈ met.roles.map (·.1) := by
    intro f hf
    obtain ⟨key, hkey, hfile⟩ := (mem_files hkf).1 hf
    obtain ⟨-, file, hfile', hmem⟩ := hkeys key hkey
    rw [hfile] at hfile'
    exact Option.some.inj hfile' ▸ hmem
  have hunique := exists_unique_binds (hmet.files ▸ hmet.nodup.map (Option.some_injective _))
    hpackageNodup hboundNodup hbindings hcount
  refine ⟨⟨packageFiles, met.files, keyFiles, hpf, hmet.files, hkf, ?_⟩, fun k => ⟨?_, ?_⟩,
    fun repo hrepo other hother k hk hk' => hmet.same_role hrepo hother hk hk', ?_, ?_, ?_,
    fun repo hrepo => isSome_of_sized (hmet.items repo hrepo).bytes, fun key hkey =>
      (hkeys key hkey).1⟩
  · rw [List.nodup_append, List.nodup_append]
    refine ⟨nodup_of_map_some hpf hpackageNodup,
      ⟨hmet.nodup, nodup_of_map_some hkf hkeyNodup, ?_⟩, ?_⟩
    · rintro f hf _ hk rfl
      exact hapart f (hkeyFile f hk) hf
    · rintro f hf _ hmem rfl
      obtain ⟨item, hitem, hfile⟩ := (mem_files hpf).1 hf
      obtain ⟨file, hfile', hnew⟩ := hpackageFiles item hitem
      rw [hfile] at hfile'
      cases hfile'
      refine hnew (List.mem_append.2 ((List.mem_append.1 hmem).imp id (hkeyFile f)))
  · rintro ⟨key, hkey, hfile⟩
    obtain ⟨row, hrow, hk⟩ := List.mem_map.1 (hkeyFile k ((mem_files hkf).2 ⟨key, hkey, hfile⟩))
    obtain ⟨repo, hrepo, hmem, -⟩ := (hmet.roles row).1 hrow
    exact ⟨repo, hrepo, hk ▸ hmem⟩
  · rintro ⟨repo, hrepo, hk⟩
    obtain ⟨role, -, hrole⟩ := (hmet.items repo hrepo).role
    have hrow : (k, role) ∈ met.roles := (hmet.roles (k, role)).2 ⟨repo, hrepo, hk, hrole⟩
    obtain ⟨key, hkey, hfile⟩ := exists_same_file (fun row : Text × Text => some row.1)
      hkeyNodup (fun key hkey => by
        obtain ⟨-, file, hfile, hmem⟩ := hkeys key hkey
        obtain ⟨row, hrow, rfl⟩ := List.mem_map.1 hmem
        exact ⟨row, hrow, hfile.symm⟩) hkeyCount (k, role) hrow
    exact ⟨key, hkey, hfile⟩
  · intro item hitem
    obtain ⟨repo, hbinds, -, honly⟩ := hunique item hitem
    exact ⟨repo, hbinds, honly⟩
  · intro binding hbinding
    obtain ⟨file, hfile, record, hrecord, _, -, _, -, hname, -⟩ := hbindings binding hbinding
    exact ⟨record, List.mem_of_find?_eq_some hrecord,
      (by simpa using List.find?_some hrecord : record.file = some file).trans hfile.symm,
      hname.symm⟩
  · intro item hitem other hother
    obtain ⟨repo, -, hrole, honly⟩ := hunique item hitem
    rw [honly other hother, hrole]
    exact exists_congr fun n => and_congr_right fun hn => hproduct item hitem n hn

end Authentic

section Totals
variable {sizes : List (Option ℤ)} {rows : List Package}

theorem foldl_plus : ∀ {ns : List ℤ} {n : ℤ}, (ns.map some).foldl plus (some n) = some (n + ns.sum)
  | [], n => by simp
  | m :: ns, n => by
    rw [List.map_cons, List.foldl_cons, plus, foldl_plus, List.sum_cons, add_assoc]

theorem counts_total (h : ∀ size ∈ sizes, size.isSome = true) : Counts (total sizes) sizes := by
  have hsizes : sizes = (sizes.map (·.getD 0)).map some := by
    rw [List.map_map]
    refine (List.map_id sizes).symm.trans (List.map_congr_left fun size hsize => ?_)
    obtain ⟨n, rfl⟩ := Option.isSome_iff_exists.1 (h size hsize)
    rfl
  refine ⟨_, hsizes, ?_⟩
  conv_lhs => rw [hsizes, total, foldl_plus, zero_add]

/-- What is installed beside the roots is all but what the roots are. -/
theorem counts_rest {p : Package → Bool} (h : ∀ row ∈ rows, row.installedBytes.isSome = true) :
    Counts (plus (total (rows.map (·.installedBytes)))
      ((total ((rows.filter p).map (·.installedBytes))).map (- ·)))
      ((rows.filter fun row => !p row).map (·.installedBytes)) := by
  have hsome : ∀ {rows' : List Package}, rows' ⊆ rows →
      ∀ size ∈ rows'.map (·.installedBytes), size.isSome = true := by
    intro rows' hsub size hsize
    obtain ⟨row, hrow, rfl⟩ := List.mem_map.1 hsize
    exact h row (hsub hrow)
  have htotal : ∀ {rows' : List Package}, rows' ⊆ rows → total (rows'.map (·.installedBytes)) =
      some (rows'.map fun row => row.installedBytes.getD 0).sum := by
    intro rows' hsub
    obtain ⟨ns, hns, hsum⟩ := counts_total (hsome hsub)
    have hvalues : (rows'.map fun row => row.installedBytes.getD 0) = ns := by
      have := congrArg (List.map (·.getD 0)) hns
      simpa [List.map_map, Function.comp_def] using this
    rw [hsum, hvalues]
  have hsplit : (rows.map fun row => row.installedBytes.getD 0).sum =
      ((rows.filter p).map fun row => row.installedBytes.getD 0).sum +
        ((rows.filter fun row => !p row).map fun row => row.installedBytes.getD 0).sum := by
    clear h hsome htotal
    induction rows with
    | nil => rfl
    | cons row rows ih =>
      by_cases hp : p row
      · simp only [List.filter_cons, hp, Bool.not_true, if_true, Bool.false_eq_true, if_false,
          List.map_cons, List.sum_cons]
        omega
      · simp only [Bool.not_eq_true] at hp
        simp only [List.filter_cons, hp, Bool.not_false, if_true, Bool.false_eq_true, if_false,
          List.map_cons, List.sum_cons]
        omega
  obtain ⟨ns, hns, hsum⟩ := counts_total (hsome (List.filter_subset_self _) :
    ∀ size ∈ (rows.filter fun row => !p row).map (·.installedBytes), size.isSome = true)
  refine ⟨ns, hns, ?_⟩
  rw [← hsum, htotal (List.Subset.refl _), htotal (List.filter_subset_self _),
    htotal (List.filter_subset_self _), hsplit]
  simp only [Option.map_some, plus, Option.some.injEq]
  omega

/-- Files of their own are put into the table one after the other. -/
theorem foldl_putFile {rows : List (Option Text × Option Text)} {files : List Text}
    (hrows : rows.map (·.1) = files.map some) (hnodup : files.Nodup) :
    (rows.foldl putFile []).map (fun row => (some row.1, row.2)) = rows := by
  have hpairs : rows = (rows.map fun row => (row.1.getD [], row.2)).map
      fun row => (some row.1, row.2) := by
    rw [List.map_map]
    refine (List.map_id rows).symm.trans (List.map_congr_left fun row hrow => ?_)
    have hmem : row.1 ∈ files.map some := hrows ▸ List.mem_map_of_mem hrow
    obtain ⟨f, -, hf⟩ := List.mem_map.1 hmem
    simp [← hf, Prod.ext_iff]
  generalize (rows.map fun row => (row.1.getD [], row.2)) = table at hpairs
  subst hpairs
  have hfiles : table.map (·.1) = files := by
    have := congrArg (List.map (·.getD [])) hrows
    simpa [List.map_map, Function.comp_def] using this
  have hassign : table.foldl (fun files row => assign files row.1 row.2) [] = table :=
    foldl_assign (by simpa [hfiles] using hnodup)
  rw [List.foldl_map]
  exact congrArg (List.map fun row => (some row.1, row.2)) hassign

end Totals

/-- What a compact budget takes: the closure of the selected roots, and for it the rows of the
universe that belong to it, each once. -/
structure Complete (selected : Selection) (packageUniverse : Universe) (mode : Storage)
    (value : Budget) : Prop where
  least : IsLeast (Closed packageUniverse.asks (selectedRoots selected mode))
    {n | some n ∈ value.packages.map (·.name)}
  once : (value.packages.map (·.name)).Nodup
  packages : ∃ rows ∈ packageUniverse.packages, value.packages.Sublist rows
  indexes : value.repositoryIndexes.Sublist packageUniverse.repositoryIndexes
  keys : value.trustKeys.Sublist packageUniverse.trustKeys
  used : ∀ repo ∈ value.repositoryIndexes, ∃ item ∈ value.packages, value.Binds item repo
  files : value.filesSha256.map (fun row => (some row.1, row.2)) =
    value.packages.map (fun row => (row.file, row.sha256)) ++
      (value.repositoryIndexes.map (fun row => (row.file, row.sha256)) ++
        value.trustKeys.map (fun row => (row.file, row.sha256)))
  authentic : Authentic value

/-- The sizes of a budget are sums over its packages, its indexes and its keys. -/
structure Counted (value : Budget) : Prop where
  compressed : Counts value.compressedBytes (value.packages.map (·.archiveBytes))
  installed : Counts value.installedFlashBytes (value.packages.map (·.installedBytes))
  dependencies : Counts value.dependencyInstalledBytes
    ((value.packages.filter fun row => !row.name.any (· ∈ value.rootPackages)).map
      (·.installedBytes))
  indexes : Counts value.repositoryIndexBytes (value.repositoryIndexes.map (·.bytes))
  keys : Counts value.trustKeyBytes (value.trustKeys.map (·.bytes))
  staging : value.stagingBytes = plus (plus (plus (plus (double value.compressedBytes)
    value.installedFlashBytes) value.installedRamBytes) (double value.repositoryIndexBytes))
    value.trustKeyBytes
  flash : value.requiredFlashBytes = plus value.installedFlashBytes value.flashReserveBytes
  ram : value.requiredRamBytes =
    plus (plus value.stagingBytes value.runtimeMemoryBytes) value.ramReserveBytes

section Budget
variable {selected : Selection} {packageUniverse : Universe} {directory : Directory}
  {mode : Storage} {modules : List Client} {server : Option Server} {value result : Budget}
  {rows : Inventory} {roots wanted : List Text} {platform : Platform}

theorem inventory_eq_ok (h : inventory platform packageUniverse = .ok rows) :
    packageUniverse.packages = some rows.packages ∧
    packageUniverse.requires = some rows.requires := by
  unfold inventory at h
  split at h
  · rename_i packages bindings requires hpackages _ hrequires
    simp only [bind_eq_ok, require_eq_ok, pure_eq_ok] at h
    obtain ⟨-, -, rfl⟩ := h
    exact ⟨hpackages, hrequires⟩
  · cases h

theorem checkPackage_eq_ok {files : Table (Option Text)} {item : Package} {u : Unit}
    (h : checkPackage files item = .ok u) :
    item.archiveBytes.isSome = true ∧ item.installedBytes.isSome = true := by
  obtain ⟨-, -, -, harchive, hinstalled, -⟩ := require_eq_ok.1 h
  refine ⟨isSome_of_sized harchive, ?_⟩
  cases hn : item.installedBytes with
  | none => simp [hn, number] at hinstalled
  | some n => rfl

/-- The packages of the budget are those with a wanted name. -/
theorem mem_collect_names {names : List Text} {n : Text}
    (hnames : rows.packages.map (·.name) = names.map some) (hwanted : ∀ n ∈ wanted, n ∈ names) :
    some n ∈ (collect selected mode packageUniverse rows modules server roots wanted).packages.map
      (·.name) ↔ n ∈ wanted := by
  simp only [collect, List.mem_map, List.mem_filter, Option.any_eq_true, decide_eq_true_eq]
  constructor
  · rintro ⟨row, ⟨-, m, hm, hwant⟩, hname⟩
    rw [hname] at hm
    exact Option.some.inj hm ▸ hwant
  · intro hn
    have hmem : some n ∈ rows.packages.map (·.name) :=
      hnames ▸ List.mem_map_of_mem (hwanted n hn)
    obtain ⟨row, hrow, hname⟩ := List.mem_map.1 hmem
    exact ⟨row, ⟨hrow, n, hname, hn⟩, hname⟩

theorem complete_collect (hinventory : inventory platform packageUniverse = .ok rows)
    (hmodules : compactPayloads selected directory mode = .ok modules)
    (hserver : compactServer selected packageUniverse directory mode = .ok server)
    (hclosure : closure rows (rootNames modules server) = .ok wanted)
    (hvalue : value = collect selected mode packageUniverse rows modules server
      (rootNames modules server) wanted) (hauthentic : Authentic value) :
    Complete selected packageUniverse mode value := by
  obtain ⟨hpackages, hrequires⟩ := inventory_eq_ok hinventory
  obtain ⟨hleast, names, hnames, hnodup, hwanted⟩ := closure_eq_ok hclosure
  have hsub : value.packages.Sublist rows.packages := by
    rw [hvalue]
    exact List.filter_sublist
  refine ⟨?_, ?_, ⟨rows.packages, hpackages, hsub⟩, ?_, ?_, ?_, ?_, hauthentic⟩
  · have hasks : packageUniverse.asks =
        fun n => {d | ∃ rows' ∈ required rows.requires n, some d ∈ rows'} := by
      funext n
      ext d
      simp [Universe.asks, hrequires]
    have hset : {n | some n ∈ value.packages.map (·.name)} = {n | n ∈ wanted} := by
      ext n
      rw [hvalue]
      exact mem_collect_names hnames hwanted
    rw [hset, hasks, ← rootNames_eq hmodules hserver]
    exact hleast
  · have hrows : (rows.packages.map (·.name)).Nodup :=
      hnames ▸ hnodup.map (Option.some_injective _)
    exact (hsub.map _).nodup hrows
  · rw [hvalue]
    exact List.filter_sublist
  · rw [hvalue]
    exact List.filter_sublist
  · intro repo hrepo
    have hbinding : ∃ binding ∈ value.packageAuthentications, binding.indexFile = repo.file := by
      subst hvalue
      obtain ⟨-, hused⟩ := List.mem_filter.1 hrepo
      simp only [Option.any_eq_true, decide_eq_true_eq] at hused
      obtain ⟨file, hfile, hmem⟩ := hused
      obtain ⟨binding, hb, hindex⟩ := List.mem_filterMap.1 hmem
      exact ⟨binding, hb, hindex.trans hfile.symm⟩
    obtain ⟨binding, hb, hindex⟩ := hbinding
    obtain ⟨item, hitem, hfile, hname⟩ := hauthentic.bindings binding hb
    exact ⟨item, hitem, hrepo, binding, hb, hfile.symm, hname.symm, hindex⟩
  · obtain ⟨packageFiles, indexFiles, keyFiles, hpf, hif, hkf, hdistinct⟩ := hauthentic.files
    have hfiles : (value.packages.map (fun row => (row.file, row.sha256)) ++
        (value.repositoryIndexes.map (fun row => (row.file, row.sha256)) ++
          value.trustKeys.map (fun row => (row.file, row.sha256)))).map (·.1) =
        (packageFiles ++ (indexFiles ++ keyFiles)).map some := by
      simp only [List.map_append, List.map_map, ← hpf, ← hif, ← hkf]
      rfl
    have hput : value.filesSha256 = ((value.packages.map (fun row => (row.file, row.sha256)) ++
        value.repositoryIndexes.map (fun row => (row.file, row.sha256))) ++
          value.trustKeys.map (fun row => (row.file, row.sha256))).foldl putFile [] := by
      rw [hvalue]
      rfl
    rw [hput, List.append_assoc]
    exact foldl_putFile hfiles hdistinct

theorem counted_collect (hvalue : value = collect selected mode packageUniverse rows modules server
      roots wanted) (hauthentic : Authentic value)
    (hchecked : ∀ item ∈ value.packages,
      item.archiveBytes.isSome = true ∧ item.installedBytes.isSome = true) : Counted value := by
  have hsome : ∀ {α : Type} {rows : List α} {f : α → Option ℤ},
      (∀ row ∈ rows, (f row).isSome = true) → ∀ size ∈ rows.map f, size.isSome = true := by
    intro α rows f h size hsize
    obtain ⟨row, hrow, rfl⟩ := List.mem_map.1 hsize
    exact h row hrow
  have hinstalled : ∀ item ∈ value.packages, item.installedBytes.isSome = true :=
    fun item hitem => (hchecked item hitem).2
  refine ⟨?_, ?_, ?_, ?_, ?_, ?_, ?_, ?_⟩
  · have h := counts_total (hsome fun item hitem => (hchecked item hitem).1)
    subst hvalue
    exact h
  · have h := counts_total (hsome hinstalled)
    subst hvalue
    exact h
  · have h := counts_rest (p := fun row => row.name.any (· ∈ value.rootPackages)) hinstalled
    subst hvalue
    exact h
  · have h := counts_total (hsome hauthentic.indexBytes)
    subst hvalue
    exact h
  · have h := counts_total (hsome hauthentic.keyBytes)
    subst hvalue
    exact h
  all_goals
    subst hvalue
    rfl

/-- Sorting the roots changes nothing of this. -/
theorem Complete.sorted (h : Complete selected packageUniverse mode value) :
    Complete selected packageUniverse mode
      { value with rootPackages := sort value.rootPackages } where
  least := h.least
  once := h.once
  packages := h.packages
  indexes := h.indexes
  keys := h.keys
  used := h.used
  files := h.files
  authentic := ⟨h.authentic.files, h.authentic.keys, h.authentic.roles, h.authentic.bound,
    h.authentic.bindings, h.authentic.product, h.authentic.indexBytes, h.authentic.keyBytes⟩

theorem Counted.sorted (h : Counted value) :
    Counted { value with rootPackages := sort value.rootPackages } where
  compressed := h.compressed
  installed := h.installed
  dependencies := by
    have hmem : ∀ n, (n ∈ sort value.rootPackages) = (n ∈ value.rootPackages) := fun n =>
      propext (List.perm_insertionSort _ _).mem_iff
    simp only [hmem]
    exact h.dependencies
  indexes := h.indexes
  keys := h.keys
  staging := h.staging
  flash := h.flash
  ram := h.ram

/-- A compact budget takes the least set of packages with the selected roots that has what its
packages ask for, counts every part of it once and binds each package to one index. -/
theorem compactBudget_eq_ok {text : Text} {development : Bool}
    (h : compactBudget selected directory text development = .ok result) :
    ∃ mode packageUniverse, storageOf text = .ok mode ∧
      compactRead (directory.packageUniverse selected.platform.packageUniverse.file) 2097152 =
        .ok packageUniverse ∧
      Complete selected packageUniverse mode result ∧ Counted result := by
  simp only [compactBudget, bind_eq_ok, require_eq_ok] at h
  obtain ⟨mode, hmode, packageUniverse, huniverse, rows, hinventory, modules, hmodules, server,
    hserver, wanted, hwanted, _, hpackages, -, -, -, -, -, -, -, -, h⟩ := h
  obtain ⟨hauthentic, rfl⟩ := compactAuthentication_eq_ok h
  refine ⟨mode, packageUniverse, hmode, huniverse, ?_, ?_⟩
  · exact (complete_collect hinventory hmodules hserver hwanted rfl hauthentic).sorted
  · refine (counted_collect rfl hauthentic fun item hitem => ?_).sorted
    exact checkPackage_eq_ok (forM_eq_ok.1 hpackages item hitem)

/-- Where the roots lead to a package without a record there is no budget. -/
theorem compactBudget_missing {text n : Text} {development : Bool} {r : Text}
    (hmode : storageOf text = .ok mode)
    (huniverse : compactRead (directory.packageUniverse selected.platform.packageUniverse.file)
      2097152 = .ok packageUniverse)
    (hr : r ∈ selectedRoots selected mode)
    (hpath : ReflTransGen (fun a b => b ∈ packageUniverse.asks a) r n)
    (hmissing : ∀ rows ∈ packageUniverse.packages, some n ∉ rows.map (·.name)) :
    ¬ Succeeds (compactBudget selected directory text development) := by
  rintro ⟨value, h⟩
  obtain ⟨mode', packageUniverse', hmode', huniverse', hcomplete, -⟩ := compactBudget_eq_ok h
  rw [hmode] at hmode'
  rw [huniverse] at huniverse'
  cases hmode'
  cases huniverse'
  obtain ⟨rows, hrows, hsub⟩ := hcomplete.packages
  have hn : n ∈ {n | some n ∈ value.packages.map (·.name)} :=
    mem_of_closed hcomplete.least.1 hr hpath
  exact hmissing rows hrows ((hsub.map _).subset hn)

end Budget

/-- A compact budget is the closure of the selected roots under what packages ask for, every part of
it counted once and bound to one index; and there is none where the roots lead to a package without
a record. -/
theorem compact_budget_closed (selected : Selection) (directory : Directory) (text : Text)
    (development : Bool) :
    (∀ value, compactBudget selected directory text development = .ok value →
      ∃ mode packageUniverse, storageOf text = .ok mode ∧
        compactRead (directory.packageUniverse selected.platform.packageUniverse.file) 2097152 =
          .ok packageUniverse ∧
        Complete selected packageUniverse mode value ∧ Counted value) ∧
    ∀ mode packageUniverse, storageOf text = .ok mode →
      compactRead (directory.packageUniverse selected.platform.packageUniverse.file) 2097152 =
        .ok packageUniverse →
      ∀ r ∈ selectedRoots selected mode, ∀ n,
        ReflTransGen (fun a b => b ∈ packageUniverse.asks a) r n →
        (∀ rows ∈ packageUniverse.packages, some n ∉ rows.map (·.name)) →
        ¬ Succeeds (compactBudget selected directory text development) :=
  ⟨fun _ h => compactBudget_eq_ok h, fun _ _ hmode huniverse _ hr _ hpath hmissing =>
    compactBudget_missing hmode huniverse hr hpath hmissing⟩

/-! The engine for VLESS in flash memory, beside a panel, a kernel and a library. -/

def digestOf (c : Char) : Text := List.replicate 64 c

def vlessEntry : Entry where
  id := "vless".toList
  storage := .flash
  version := "1.0.0".toList
  architecture := "x86_64".toList
  binarySha256 := digestOf 'a'
  executableSha256 := digestOf 'a'
  producerSha256 := digestOf 'a'
  capabilitiesSha256 := digestOf 'a'
  legalProvenanceSha256 := digestOf 'a'
  manifestSha256 := digestOf 'b'
  sourceCommit := List.replicate 40 'e'
  binaryBytes := 8192
  archiveBytes := 1024
  indexBytes := 512
  installedBytes := 12288
  runtimeMemoryBytes := 33554432
  reserveBytes := 16777216
  packageName := "foxcore-engine-vless-flash-".toList ++ digestOf 'b'
  packageVersion := "1.0.0-r1".toList
  packageSha256 := digestOf 'a'
  indexSha256 := digestOf 'a'
  packageUrl := Engine.BASE ++ "v1.0.0/foxcore-engine-vless-flash-".toList ++ digestOf 'b' ++
    "-1.0.0-r1.apk".toList
  indexUrl := Engine.BASE ++ "v1.0.0/engines.adb".toList

def vlessClient : Client where
  id := "vless".toList
  storage := .flash
  entry := vlessEntry
  producer := ⟨"vless-producer.json".toList, digestOf 'a'⟩
  capabilities := ⟨"vless-caps.json".toList, digestOf 'a'⟩
  slotManifest := ⟨"vless-slot.json".toList, digestOf 'b'⟩

def vlessSelection : Selection where
  platform :=
    { architecture := "x86_64".toList
      supportedTargets := ["x86/64".toList]
      supportedOpenWrt := ["25.12.5".toList]
      basePackage := ⟨client, "panel.apk".toList, digestOf 'a', digestOf 'a'⟩
      engineCatalog := ⟨"engines.json".toList, digestOf 'a'⟩
      packageUniverse := ⟨"universe.json".toList, digestOf 'a'⟩
      clients := [vlessClient]
      server := none }
  protocols := ["vless".toList]
  includeServer := false

def fixturePackage (n file : Text) : Package where
  name := some n
  file := some file
  sha256 := some (digestOf 'a')
  version := some "1.0.0-r1".toList
  arch := some "x86_64".toList
  archiveBytes := some 1024
  installedBytes := some 12288

def fixtureBinding (item : Package) (indexFile : Text) : Binding where
  name := item.name
  version := item.version
  architecture := item.arch
  file := item.file
  indexFile := some indexFile
  packageIdentity := some (digestOf 'a')

def fixtureIndex (file role url key : Text) : Index where
  file := some file
  sha256 := some (digestOf 'a')
  bytes := some 512
  role := some role
  sourceUrl := some url
  trustKeyFiles := some [some key]

def libc : Package := fixturePackage "libc".toList "libc.apk".toList
def kernelPackage : Package := fixturePackage kernel "kernel.apk".toList
def panel : Package := fixturePackage client "panel.apk".toList

def vlessPackage : Package :=
  fixturePackage vlessEntry.packageName
    ("foxcore-engine-vless-flash-".toList ++ digestOf 'b' ++ "-1.0.0-r1.apk".toList)

/-- The library asks for the kernel, and the kernel for the library. -/
def vlessUniverse (packages : List Package) : Universe where
  schema := some 2
  kind := some "compact-package-universe-v1".toList
  architecture := some "x86_64".toList
  supportedTargets := ["x86/64".toList]
  supportedOpenWrt := ["25.12.5".toList]
  verification := some
    { signatureModel := some "canonical-apk-and-upstream-index-v1".toList
      signatures := some true
      factorySourceSha256 := some (digestOf 'a')
      resolver := some "apk add --simulate --no-network".toList }
  packages := some packages
  packageAuthentications := some (packages.map fun item => fixtureBinding item
    (if item = libc ∨ item = kernelPackage then "core.adb".toList
      else if item = panel then "base.adb".toList else "engines.adb".toList))
  repositoryIndexes :=
    [fixtureIndex "base.adb".toList foxhole (Engine.BASE ++ "v1.0.0/base.adb".toList)
      "foxhole-openwrt-apk.pem".toList,
    fixtureIndex "engines.adb".toList foxhole vlessEntry.indexUrl "foxhole-openwrt-apk.pem".toList,
    fixtureIndex "core.adb".toList upstream
      ("https://downloads.openwrt.org/releases/25.12.5/targets/x86/64/packages/packages.adb".toList)
      "firmware.pem".toList]
  trustKeys := [⟨some "foxhole-openwrt-apk.pem".toList, some ownKey, some 512⟩,
    ⟨some "firmware.pem".toList, some (digestOf 'd'), some 512⟩]
  filesSha256 := packages.map (fun item => (item.file.getD [], item.sha256)) ++
    [("base.adb".toList, some (digestOf 'a')), ("engines.adb".toList, some (digestOf 'a')),
      ("core.adb".toList, some (digestOf 'a')), ("foxhole-openwrt-apk.pem".toList, some ownKey),
      ("firmware.pem".toList, some (digestOf 'd'))]
  requires := some [(kernel, some [some "libc".toList]), ("libc".toList, some [some kernel]),
    (client, some [some "libc".toList]), (vlessEntry.packageName, some [some "libc".toList])]
  server := []
  baseRuntimeMemoryBytes := some 16777216
  flashReserveBytes := some 16777216
  ramReserveBytes := some 16777216
  memoryEvidence := some
    { schema := some 1
      type := some "conservative".toList
      description := some "reserve".toList
      provisional := .missing
      acceptedForRelease := .missing
      measured := .missing }

def fixtureFile {α : Type} (value : α) : Option (File α) :=
  some { size := 4096, bytes := some 4096, value := some value }

def vlessDirectory (packages : List Package) : Directory where
  packageUniverse := fun _ => fixtureFile (vlessUniverse packages)
  producer := fun _ => fixtureFile
    { schema := 1, exitCode := 0, target := "x86_64-unknown-linux-musl".toList,
      binarySha256 := digestOf 'a', sourceCommit := List.replicate 40 'e',
      sourceSha256 := digestOf 'a', coreVersion := "1.0.0".toList, protocols := ["vless".toList] }
  capabilities := fun _ => fixtureFile
    { schemaVersion := 1, routerContractVersion := 1, platform := "linux".toList,
      coreVersion := "1.0.0".toList, protocols := ["vless".toList] }
  slot := fun _ => fixtureFile { schema := 1, identity := identity vlessEntry }
  engineCatalog := fun _ => fixtureFile
    { schema := 1, entries := [⟨"vless".toList, .flash, "x86_64".toList, some vlessEntry⟩] }
  serverProducer := fun _ => none

theorem vlessBudget : (∃ value, compactBudget vlessSelection
      (vlessDirectory [libc, kernelPackage, panel, vlessPackage]) "flash".toList false = .ok value ∧
      Counted value) ∧
    ¬ Succeeds (compactBudget vlessSelection (vlessDirectory [kernelPackage, panel, vlessPackage])
      "flash".toList false) := by
  have hok : Succeeds (compactBudget vlessSelection
      (vlessDirectory [libc, kernelPackage, panel, vlessPackage]) "flash".toList false) := by
    decide +kernel
  obtain ⟨value, hvalue⟩ := hok
  obtain ⟨-, -, -, -, -, hcounted⟩ := (compact_budget_closed _ _ _ _).1 value hvalue
  refine ⟨⟨value, hvalue, hcounted⟩, ?_⟩
  refine (compact_budget_closed _ _ _ _).2 .flash
    (vlessUniverse [kernelPackage, panel, vlessPackage])
    rfl rfl kernel (Or.inl rfl) "libc".toList (.single ?_) (by decide)
  exact ⟨_, rfl, [some "libc".toList], rfl, by simp⟩

end Foxhole.InstallPlan
