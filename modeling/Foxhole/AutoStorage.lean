import Foxhole.EngineCommit

/-! Engines added with storage AUTO: flash package by flash package while it fits, though the
reserve of a package counts only once it is picked. -/
namespace Foxhole.Engine
open Check Text

/-- The packages of the router's architecture for one engine. -/
def offers (available : List Entry) (context : Context) (id : Text) : List Entry :=
  (available.filter fun row => row.id = id).filter fun row =>
  row.architecture = context.architecture

/-- The packages picked for the engines in turn, beside `flash` bytes and a reserve. -/
def pickAll (wish : Wish) (available : List Entry) (context : Context) :
    (flash reserve : ℤ) → List Text → Option (List Entry)
  | _, _, [] => some []
  | flash, reserve, id :: rest => do
    let next ← choose wish context { flash, reserve } (offers available context id)
    let later ← pickAll wish available context (flash + next.installedBytes)
      (max reserve next.reserveBytes) rest
    return next :: later

def total (bytes : Entry → ℤ) (picks : List Entry) : ℤ := (picks.map bytes).sum

def largest (bytes : Entry → ℤ) (least : ℤ) (picks : List Entry) : ℤ :=
  picks.foldl (fun n e => max n (bytes e)) least

def staged (e : Entry) : ℤ := e.archiveBytes * 3 + e.indexBytes * 3

/-- What a package takes of the memory while it is installed there. -/
def held (e : Entry) : ℤ := if e.storage = .ram then e.binaryBytes else 0

/-- The packages fit together, with the largest reserve that one of them asks for. -/
def Fits (context : Context) (picks : List Entry) : Prop :=
  let reserve := largest (·.reserveBytes) 16777216 picks
  total (·.installedBytes) picks + reserve ≤ context.flashAvailableBytes ∧
  largest (·.runtimeMemoryBytes) 0 picks + total held picks + total staged picks + reserve ≤
    context.ramAvailableBytes

instance (context : Context) (picks : List Entry) : Decidable (Fits context picks) :=
  inferInstanceAs (Decidable (_ ∧ _))

/-- One package for each of the engines, of those on offer. -/
def Selection (available : List Entry) (context : Context) (wanted : List Text)
    (picks : List Entry) : Prop :=
  List.Forall₂ (fun id e => e ∈ offers available context id) wanted picks

/-- Each flash package has room beside those before it and the largest reserve that these ask
for. -/
def Roomy (context : Context) (flash reserve : ℤ) (picks : List Entry) : Prop :=
  ∀ before e after, picks = before ++ e :: after → e.storage = .flash →
    flash + total (·.installedBytes) before + e.installedBytes +
      largest (·.reserveBytes) reserve before ≤ context.flashAvailableBytes

/-- If the memory packages of the engines fit together, so does every selection in which each
flash package has room beside those before it. -/
def MixesFit (request : Request) (rawCatalog : RawCatalog) (context : Context) : Prop :=
  ∀ available wanted, catalog rawCatalog = .ok available → ids request.engineIds = .ok wanted →
    (∃ memory, Selection available context wanted memory ∧ (∀ e ∈ memory, e.storage = .ram) ∧
      Fits context memory) →
    ∀ picks, Selection available context wanted picks → Roomy context 0 16777216 picks →
      Fits context picks

/-- A request to add the engines `wanted` that is in order but for the packages it leads to. -/
structure Admitted (request : Request) (rawCatalog : RawCatalog) (rawRegistry : RawRegistry)
    (context : Context) (owner nonce : Text) (now : ℤ) (available : List Entry)
    (wanted : List Text) : Prop where
  known : request.unknown = false
  revision : ∃ installed expected, registry rawRegistry = .ok installed ∧
    request.expectedRevision = .value expected ∧ number expected 0x7ffffffe ∧
    installed.revision = expected ∧ ∀ id ∈ wanted, selected installed.raw id = .ok none
  owner : sha owner = true
  nonce : sha nonce = true
  now : number now 9007198954740991
  wanted : ids request.engineIds = .ok wanted
  available : catalog rawCatalog = .ok available
  current : request.catalogSha256 = .value context.catalogSha256
  flash : number context.flashAvailableBytes 9007199254740991
  ram : number context.ramAvailableBytes 9007199254740991

section
variable {wish : Wish} {available : List Entry} {context : Context} {flash reserve : ℤ}
  {wanted : List Text} {picks : List Entry} {draft result : Draft} {installed : Registry}

theorem choose_room {draft : Draft} {candidates : List Entry} :
    choose wish context draft candidates =
      choose wish context { flash := draft.flash, reserve := draft.reserve } candidates := by
  cases wish <;> rfl

/-- One round of the loop for an engine that is to be added. -/
theorem planStep_add {id : Text} {draft' : Draft} :
    planStep .add wish available installed context draft id = .ok draft' ↔
      selected installed.raw id = .ok none ∧
      ∃ next, choose wish context draft (offers available context id) = some next ∧
        draft.install context id none next = draft' := by
  simp only [planStep, bind_eq_ok]
  constructor
  · rintro ⟨old, hold, h⟩
    rw [if_neg (by decide)] at h
    simp only [bind_eq_ok, require_eq_ok] at h
    obtain ⟨_, hnew, _, -, _, -, h⟩ := h
    have hnone : old = none := by
      cases old with
      | none => rfl
      | some old => simp at hnew
    subst hnone
    cases hnext : choose wish context draft (offers available context id) with
    | none =>
      unfold offers at hnext
      simp only [hnext, throw_ne_ok] at h
    | some next =>
      have hfound := hnext
      unfold offers at hfound
      simp only [hfound, bind_eq_ok, pure_eq_ok] at h
      obtain ⟨_, -, h⟩ := h
      exact ⟨hold, next, rfl, h⟩
  · rintro ⟨hold, next, hnext, h⟩
    have hmem := choose_mem hnext
    have hsame := (List.mem_filter.1 hmem).1
    refine ⟨none, hold, ?_⟩
    rw [if_neg (by decide)]
    simp only [bind_eq_ok, require_eq_ok]
    refine ⟨(), by simp, (), List.ne_nil_of_mem hsame, (), List.ne_nil_of_mem hmem, ?_⟩
    unfold offers at hnext
    simp only [hnext, bind_eq_ok, require_eq_ok, pure_eq_ok]
    exact ⟨(), by simp, h⟩

/-- What a draft sums up when these packages are added to it. -/
structure Draft.Takes (draft result : Draft) (picks : List Entry) : Prop where
  flash : result.flash = draft.flash + total (·.installedBytes) picks
  staging : result.staging = draft.staging + total staged picks
  ram : result.ram = largest (·.runtimeMemoryBytes) draft.ram picks
  volatile : result.volatile = draft.volatile + total held picks
  reserve : result.reserve = largest (·.reserveBytes) draft.reserve picks

theorem Draft.Takes.cons {id : Text} {next : Entry}
    (h : (draft.install context id none next).Takes result picks) :
    draft.Takes result (next :: picks) where
  flash := by rw [h.flash]; simp only [total, List.map_cons, List.sum_cons, Draft.install]; omega
  staging := by
    rw [h.staging]
    simp only [total, List.map_cons, List.sum_cons, Draft.install, staged]
    omega
  ram := h.ram
  volatile := by
    rw [h.volatile]
    simp only [total, List.map_cons, List.sum_cons, Draft.install, held]
    omega
  reserve := h.reserve

theorem pickAll_cons {id : Text} : pickAll wish available context flash reserve (id :: wanted) =
    some picks ↔ ∃ next later,
      choose wish context { flash, reserve } (offers available context id) = some next ∧
      pickAll wish available context (flash + next.installedBytes) (max reserve next.reserveBytes)
        wanted = some later ∧ picks = next :: later := by
  simp only [pickAll, Option.bind_eq_bind, Option.bind_eq_some_iff, Option.pure_def,
    Option.some.injEq]
  constructor
  · rintro ⟨next, hnext, later, hlater, h⟩
    exact ⟨next, later, hnext, hlater, h.symm⟩
  · rintro ⟨next, later, hnext, hlater, h⟩
    exact ⟨next, hnext, later, hlater, h.symm⟩

/-- The loop of `plan` over engines to be added. -/
theorem foldlM_add_ok : ∀ {wanted : List Text} {draft : Draft},
    wanted.foldlM (planStep .add wish available installed context) draft = .ok result →
      (∀ id ∈ wanted, selected installed.raw id = .ok none) ∧
      ∃ picks, pickAll wish available context draft.flash draft.reserve wanted = some picks ∧
        draft.Takes result picks
  | [], draft, h => by
    obtain rfl : draft = result := by simpa using h
    exact ⟨by simp, [], rfl, by simp [total], by simp [total], rfl, by simp [total], rfl⟩
  | id :: wanted, draft, h => by
    rw [List.foldlM_cons, bind_eq_ok] at h
    obtain ⟨draft', hstep, h⟩ := h
    obtain ⟨hold, next, hnext, rfl⟩ := planStep_add.1 hstep
    obtain ⟨hwanted, picks, hpicks, htakes⟩ := foldlM_add_ok h
    rw [choose_room] at hnext
    exact ⟨List.forall_mem_cons.2 ⟨hold, hwanted⟩, next :: picks,
      pickAll_cons.2 ⟨next, picks, hnext, hpicks, rfl⟩, htakes.cons⟩

theorem foldlM_add : ∀ {wanted : List Text} {draft : Draft} {picks : List Entry},
    (∀ id ∈ wanted, selected installed.raw id = .ok none) →
    pickAll wish available context draft.flash draft.reserve wanted = some picks →
    ∃ result, wanted.foldlM (planStep .add wish available installed context) draft = .ok result ∧
      draft.Takes result picks
  | [], draft, picks, _, h => by
    obtain rfl : [] = picks := by simpa [pickAll] using h
    exact ⟨draft, rfl, by simp [total], by simp [total], rfl, by simp [total], rfl⟩
  | id :: wanted, draft, picks, hold, h => by
    obtain ⟨hid, hwanted⟩ := List.forall_mem_cons.1 hold
    obtain ⟨next, later, hnext, hlater, rfl⟩ := pickAll_cons.1 h
    rw [← choose_room] at hnext
    obtain ⟨result, hresult, htakes⟩ : ∃ result,
        wanted.foldlM (planStep .add wish available installed context)
          (draft.install context id none next) = .ok result ∧
        (draft.install context id none next).Takes result later := foldlM_add hwanted hlater
    refine ⟨result, ?_, htakes.cons⟩
    rw [List.foldlM_cons, planStep_add.2 ⟨hid, next, hnext, rfl⟩]
    exact hresult

theorem le_largest {f : Entry → ℤ} : ∀ {picks : List Entry} {least : ℤ},
    least ≤ largest f least picks
  | [], _ => le_rfl
  | e :: picks, least =>
    have hrest : max least (f e) ≤ largest f (max least (f e)) picks := le_largest
    (le_max_left _ _).trans hrest

/-- Where the flash packages fit together, each of them fitted when it was picked. -/
theorem pickAll_flash (hsize : ∀ e ∈ available, 0 ≤ e.installedBytes) :
    ∀ {wanted : List Text} {picks : List Entry} {flash reserve : ℤ},
    pickAll .flash available context flash reserve wanted = some picks →
    flash + total (·.installedBytes) picks + largest (·.reserveBytes) reserve picks ≤
      context.flashAvailableBytes →
    pickAll .auto available context flash reserve wanted = some picks ∧
      0 ≤ total (·.installedBytes) picks
  | [], picks, _, _, h, _ => by
    obtain rfl : [] = picks := by simpa [pickAll] using h
    exact ⟨rfl, le_rfl⟩
  | id :: wanted, picks, flash, reserve, h, hfit => by
    obtain ⟨next, later, hnext, hlater, rfl⟩ := pickAll_cons.1 h
    have hinstalled : 0 ≤ next.installedBytes :=
      hsize next (List.mem_filter.1 (List.mem_filter.1 (choose_mem hnext)).1).1
    have hcons : total (·.installedBytes) (next :: later) =
        next.installedBytes + total (·.installedBytes) later := List.sum_cons
    change flash + total _ (next :: later) + largest _ (max reserve next.reserveBytes) later ≤ _
      at hfit
    rw [hcons] at hfit ⊢
    obtain ⟨hauto, htotal⟩ := pickAll_flash hsize hlater (by omega)
    refine ⟨pickAll_cons.2 ⟨next, later, ?_, hauto, rfl⟩, by omega⟩
    have hroom : flash + next.installedBytes + reserve ≤ context.flashAvailableBytes := by
      have hreserve : reserve ≤ largest (·.reserveBytes) (max reserve next.reserveBytes) later :=
        (le_max_left _ _).trans le_largest
      omega
    simp only [choose] at hnext ⊢
    rw [hnext]
    exact if_pos hroom

/-- Where every engine has a package for the memory, AUTO picks one for each. -/
theorem pickAll_ram : ∀ {wanted : List Text} {picks : List Entry}
    {flash reserve flash' reserve' : ℤ},
    pickAll .ram available context flash reserve wanted = some picks →
    ∃ mixed, pickAll .auto available context flash' reserve' wanted = some mixed
  | [], _, _, _, _, _, _ => ⟨[], rfl⟩
  | id :: wanted, picks, flash, reserve, flash', reserve', h => by
    obtain ⟨next, later, hnext, hlater, rfl⟩ := pickAll_cons.1 h
    have hchoose : ∃ e, choose .auto context { flash := flash', reserve := reserve' }
        (offers available context id) = some e := by
      simp only [choose] at hnext ⊢
      split
      · split
        · exact ⟨_, rfl⟩
        · exact ⟨next, hnext⟩
      · exact ⟨next, hnext⟩
    obtain ⟨e, he⟩ := hchoose
    obtain ⟨mixed, hmixed⟩ : ∃ mixed, pickAll .auto available context
        (flash' + e.installedBytes) (max reserve' e.reserveBytes) wanted = some mixed :=
      pickAll_ram hlater
    exact ⟨e :: mixed, pickAll_cons.2 ⟨e, mixed, he, hmixed, rfl⟩⟩

theorem budget_fits (h : ({} : Draft).Takes draft picks) :
    (number context.flashAvailableBytes 9007199254740991 ∧
      number context.ramAvailableBytes 9007199254740991 ∧
      (draft.budget context).flashRequiredBytes ≤ context.flashAvailableBytes ∧
      (draft.budget context).ramRequiredBytes ≤ context.ramAvailableBytes) ↔
    number context.flashAvailableBytes 9007199254740991 ∧
      number context.ramAvailableBytes 9007199254740991 ∧ Fits context picks := by
  simp only [Draft.budget, Fits, h.flash, h.staging, h.ram, h.volatile, h.reserve, zero_add]

variable {fingerprint : Plan → Text} {request : Request} {rawCatalog : RawCatalog}
  {rawRegistry : RawRegistry} {owner nonce : Text} {now : ℤ}

/-- Engines are added if and only if the request is in order, a package is picked for each, and
the picked ones fit. -/
theorem plan_add_succeeds : Succeeds (plan fingerprint
      { request with operation := some .add, storage := some wish } rawCatalog rawRegistry context
      owner nonce now) ↔
    ∃ available wanted, Admitted request rawCatalog rawRegistry context owner nonce now available
        wanted ∧
      ∃ picks, pickAll wish available context 0 16777216 wanted = some picks ∧
        Fits context picks := by
  unfold plan
  simp only [succeeds_bind, require_eq_ok]
  constructor
  · rintro ⟨_, hknown, h⟩
    cases hexp : request.expectedRevision with
    | missing => simp [hexp, throw, throwThe, MonadExceptOf.throw] at h
    | invalid => simp [hexp, throw, throwThe, MonadExceptOf.throw] at h
    | value expected =>
      simp only [hexp, succeeds_bind, require_eq_ok] at h
      obtain ⟨_, ⟨hnumber, howner, hnonce, hnow⟩, wanted, hwanted, available, havailable, installed,
        hinstalled, _, ⟨hrevision, hcurrent⟩, draft, hdraft, _, hfit, -⟩ := h
      obtain ⟨hold, picks, hpicks, htakes⟩ := foldlM_add_ok hdraft
      obtain ⟨hflash, hram, hfits⟩ := (budget_fits htakes).1 (require_eq_ok.1 hfit)
      exact ⟨available, wanted, ⟨hknown, ⟨installed, expected, hinstalled, hexp, hnumber, hrevision,
        hold⟩, howner, hnonce, hnow, hwanted, havailable, hcurrent, hflash, hram⟩, picks, hpicks,
        hfits⟩
  · rintro ⟨available, wanted, h, picks, hpicks, hfits⟩
    obtain ⟨installed, expected, hinstalled, hexp, hnumber, hrevision, hold⟩ := h.revision
    obtain ⟨draft, hdraft, htakes⟩ : ∃ draft,
        wanted.foldlM (planStep .add wish available installed context) {} = .ok draft ∧
        ({} : Draft).Takes draft picks := foldlM_add hold hpicks
    refine ⟨(), h.known, ?_⟩
    simp only [hexp, succeeds_bind, require_eq_ok]
    exact ⟨(), ⟨hnumber, h.owner, h.nonce, h.now⟩, wanted, h.wanted, available, h.available,
      installed, hinstalled, (), ⟨hrevision, h.current⟩, draft, hdraft, (),
      require_eq_ok.2 ((budget_fits htakes).2 ⟨h.flash, h.ram, hfits⟩), succeeds_ok⟩

/-- AUTO succeeds where FLASH or RAM does. -/
def NeverWorse (fingerprint : Plan → Text) (request : Request) (rawCatalog : RawCatalog)
    (rawRegistry : RawRegistry) (context : Context) (owner nonce : Text) (now : ℤ) : Prop :=
  ∀ wish, wish = .flash ∨ wish = .ram →
    Succeeds (plan fingerprint { request with operation := some .add, storage := some wish }
      rawCatalog rawRegistry context owner nonce now) →
    Succeeds (plan fingerprint { request with operation := some .add, storage := some .auto }
      rawCatalog rawRegistry context owner nonce now)

/-- If the flash packages fit, AUTO picks them. -/
theorem flash_auto (h : Succeeds (plan fingerprint
      { request with operation := some .add, storage := some .flash } rawCatalog rawRegistry
      context owner nonce now)) :
    Succeeds (plan fingerprint { request with operation := some .add, storage := some .auto }
      rawCatalog rawRegistry context owner nonce now) := by
  obtain ⟨available, wanted, hadmitted, picks, hpicks, hfits⟩ := plan_add_succeeds.1 h
  have hsize : ∀ e ∈ available, 0 ≤ e.installedBytes := by
    intro e he
    obtain ⟨-, -, -, -, -, -, hsized, -⟩ := (catalog_eq_ok.1 hadmitted.available).2.1 e he
    exact (hsized.1 e.installedBytes (by simp)).1.1
  have hauto := (pickAll_flash hsize hpicks (by rw [zero_add]; exact hfits.1)).1
  exact plan_add_succeeds.2 ⟨available, wanted, hadmitted, picks, hauto, hfits⟩

theorem roomy_nil : Roomy context flash reserve [] := by
  intro before e after h
  simp at h

theorem roomy_cons {e : Entry} (hfirst : e.storage = .flash →
      flash + e.installedBytes + reserve ≤ context.flashAvailableBytes)
    (hrest : Roomy context (flash + e.installedBytes) (max reserve e.reserveBytes) picks) :
    Roomy context flash reserve (e :: picks) := by
  intro before next after h hflash
  cases before with
  | nil =>
    obtain ⟨rfl, -⟩ := List.cons.inj h
    have := hfirst hflash
    simpa [total, largest] using this
  | cons first before =>
    obtain ⟨rfl, rfl⟩ := List.cons.inj h
    have := hrest before next after rfl hflash
    simp only [total, largest, List.map_cons, List.sum_cons, List.foldl_cons] at this ⊢
    omega

theorem pickAll_selection : ∀ {wanted : List Text} {picks : List Entry} {flash reserve : ℤ},
    pickAll wish available context flash reserve wanted = some picks →
      Selection available context wanted picks
  | [], picks, _, _, h => by
    obtain rfl : [] = picks := by simpa [pickAll] using h
    exact .nil
  | id :: wanted, picks, _, _, h => by
    obtain ⟨next, later, hnext, hlater, rfl⟩ := pickAll_cons.1 h
    exact .cons (choose_mem hnext) (pickAll_selection hlater)

theorem choose_ram {draft : Draft} {candidates : List Entry} {e : Entry}
    (h : choose .ram context draft candidates = some e) : e.storage = .ram :=
  of_decide_eq_true (List.find?_some (p := fun row : Entry => row.storage = .ram) h)

theorem pickAll_memory : ∀ {wanted : List Text} {picks : List Entry} {flash reserve : ℤ},
    pickAll .ram available context flash reserve wanted = some picks →
      ∀ e ∈ picks, e.storage = .ram
  | [], picks, _, _, h => by
    obtain rfl : [] = picks := by simpa [pickAll] using h
    exact List.forall_mem_nil _
  | id :: wanted, picks, _, _, h => by
    obtain ⟨next, later, hnext, hlater, rfl⟩ := pickAll_cons.1 h
    exact List.forall_mem_cons.2 ⟨choose_ram hnext, pickAll_memory hlater⟩

theorem choose_auto {draft : Draft} {candidates : List Entry} {e : Entry}
    (h : choose .auto context draft candidates = some e) (hflash : e.storage = .flash) :
    draft.flash + e.installedBytes + draft.reserve ≤ context.flashAvailableBytes := by
  have hram : choose .ram context draft candidates ≠ some e := by
    intro he
    rw [choose_ram he] at hflash
    cases hflash
  simp only [choose] at h hram
  split at h
  · split at h
    · rename_i hroom
      obtain rfl := Option.some.inj h
      exact hroom
    · exact absurd h hram
  · exact absurd h hram

theorem pickAll_roomy : ∀ {wanted : List Text} {picks : List Entry} {flash reserve : ℤ},
    pickAll .auto available context flash reserve wanted = some picks →
      Roomy context flash reserve picks
  | [], picks, _, _, h => by
    obtain rfl : [] = picks := by simpa [pickAll] using h
    exact roomy_nil
  | id :: wanted, picks, _, _, h => by
    obtain ⟨next, later, hnext, hlater, rfl⟩ := pickAll_cons.1 h
    exact roomy_cons (choose_auto hnext) (pickAll_roomy hlater)

/-- An engine has one package for each storage. -/
theorem offers_unique (havailable : catalog rawCatalog = .ok available) {id : Text} {a b : Entry}
    (ha : a ∈ offers available context id) (hb : b ∈ offers available context id)
    (hstorage : a.storage = b.storage) : a = b := by
  obtain ⟨-, -, hnodup, -⟩ := catalog_eq_ok.1 havailable
  simp only [offers, List.mem_filter, decide_eq_true_eq] at ha hb
  refine List.inj_on_of_nodup_map hnodup ha.1.1 hb.1.1 ?_
  unfold catalogKey
  rw [ha.1.2, hb.1.2, ha.2, hb.2, hstorage]

theorem find_offer (havailable : catalog rawCatalog = .ok available) {id : Text} {e : Entry}
    (he : e ∈ offers available context id) :
    ((offers available context id).find? fun row => row.storage = e.storage) = some e := by
  cases hfind : (offers available context id).find? fun row => row.storage = e.storage with
  | none => exact absurd (decide_eq_true rfl) (List.find?_eq_none.1 hfind e he)
  | some found =>
    have hstorage : found.storage = e.storage :=
      of_decide_eq_true (List.find?_some (p := fun row : Entry => row.storage = e.storage) hfind)
    exact congrArg some (offers_unique havailable (List.mem_of_find?_eq_some hfind) he hstorage)

/-- The one engine of a request gets its flash package if that has room. -/
theorem pickAll_single (havailable : catalog rawCatalog = .ok available) {id : Text} {e : Entry}
    (he : e ∈ offers available context id) (hflash : e.storage = .flash)
    (hroom : Roomy context 0 16777216 [e]) :
    pickAll .auto available context 0 16777216 [id] = some [e] := by
  have hfits := hroom [] e [] rfl hflash
  refine pickAll_cons.2 ⟨e, [], ?_, rfl, rfl⟩
  have hfind := find_offer havailable he
  rw [hflash] at hfind
  simp only [choose, hfind]
  exact if_pos (by simpa [total, largest] using hfits)

/-- AUTO succeeds where FLASH or RAM does, if every mix with room for its flash packages fits. For
a single engine this is needed as well. -/
theorem auto_never_worse (fingerprint : Plan → Text) (request : Request)
    (rawCatalog : RawCatalog) (rawRegistry : RawRegistry) (context : Context)
    (owner nonce : Text) (now : ℤ) :
    (MixesFit request rawCatalog context →
      NeverWorse fingerprint request rawCatalog rawRegistry context owner nonce now) ∧
    ∀ available id, Admitted request rawCatalog rawRegistry context owner nonce now available
        [id] →
      NeverWorse fingerprint request rawCatalog rawRegistry context owner nonce now →
      MixesFit request rawCatalog context := by
  constructor
  · rintro h wish (rfl | rfl) hplan
    · exact flash_auto hplan
    · obtain ⟨available, wanted, hadmitted, memory, hmemory, hfits⟩ := plan_add_succeeds.1 hplan
      obtain ⟨mixed, hmixed⟩ := pickAll_ram hmemory
      refine plan_add_succeeds.2 ⟨available, wanted, hadmitted, mixed, hmixed, ?_⟩
      exact h available wanted hadmitted.available hadmitted.wanted
        ⟨memory, pickAll_selection hmemory, pickAll_memory hmemory, hfits⟩ mixed
        (pickAll_selection hmixed) (pickAll_roomy hmixed)
  · intro available id hadmitted hbetter available' wanted havailable hwanted hmemory picks hpicks
      hroom
    obtain rfl : available = available' :=
      Except.ok.inj (hadmitted.available.symm.trans havailable)
    obtain rfl : [id] = wanted := Except.ok.inj (hadmitted.wanted.symm.trans hwanted)
    obtain ⟨memory, hselection, hram, hfits⟩ := hmemory
    obtain ⟨m, rest, hm, hrest, rfl⟩ := List.forall₂_cons_left_iff.1 hselection
    obtain rfl := List.forall₂_nil_left_iff.1 hrest
    obtain ⟨e, rest, he, hrest, rfl⟩ := List.forall₂_cons_left_iff.1 hpicks
    obtain rfl := List.forall₂_nil_left_iff.1 hrest
    have hmram : m.storage = .ram := hram m List.mem_cons_self
    cases hstorage : e.storage with
    | ram =>
      obtain rfl : m = e := offers_unique havailable hm he (hmram.trans hstorage.symm)
      exact hfits
    | flash =>
      have hfind := find_offer havailable hm
      rw [hmram] at hfind
      have hpick : pickAll .ram available context 0 16777216 [id] = some [m] :=
        pickAll_cons.2 ⟨m, [], hfind, rfl, rfl⟩
      have hauto := hbetter .ram (Or.inr rfl)
        (plan_add_succeeds.2 ⟨available, [id], hadmitted, [m], hpick, hfits⟩)
      obtain ⟨available', wanted', hadmitted', mixed, hmixed, hfits'⟩ := plan_add_succeeds.1 hauto
      obtain rfl : available = available' :=
        Except.ok.inj (havailable.symm.trans hadmitted'.available)
      obtain rfl : [id] = wanted' := Except.ok.inj (hwanted.symm.trans hadmitted'.wanted)
      rw [pickAll_single havailable he hstorage hroom] at hmixed
      exact Option.some.inj hmixed ▸ hfits'

end

/-- The flash package of the counterexample asks for a reserve of 32 MiB. -/
def heavyFlash : Entry := { packageOf vless 0 with reserveBytes := 33554432 }

def memoryName (id : Text) : Text :=
  "foxcore-engine-".toList ++ id ++ ['-'] ++ "ram".toList ++ ['-'] ++ digestOf 1

/-- The same engine for the memory, with the least reserve. -/
def memoryOf (id : Text) : Entry :=
  { packageOf id 1 with
    storage := .ram
    packageName := memoryName id
    packageUrl := release ++ memoryName id ++ ['-'] ++ "1.0.0-r1".toList ++ ".apk".toList }

/-- A router with 24 MiB of free flash. -/
def tightContext : Context := { roomyContext with flashAvailableBytes := 25165824 }

/-- RAM fits, AUTO picks flash and does not. -/
theorem auto_worse :
    Succeeds (plan (fun _ => []) { requestFor .add vless 0 with storage := some .ram }
      (catalogOf [heavyFlash, memoryOf vless]) defaults.raw tightContext (digestOf 0) (digestOf 1)
      1000) ∧
    plan (fun _ => []) { requestFor .add vless 0 with storage := some .auto }
      (catalogOf [heavyFlash, memoryOf vless]) defaults.raw tightContext (digestOf 0) (digestOf 1)
      1000 = .error .engineNoSpace := by decide +kernel

def vmess : Text := "vmess".toList

/-- A flash package that takes 1 MiB. -/
def largeFlash : Entry := { packageOf vmess 2 with installedBytes := 1048576 }

def mixedCatalog : List Entry := [packageOf vless 0, memoryOf vless, largeFlash, memoryOf vmess]

/-- The flash has room for one of the flash packages. -/
def scantContext : Context := { roomyContext with flashAvailableBytes := 16785408 }

def mixedRequest : Request :=
  { requestFor .add vless 0 with engineIds := .value [.value vless, .value vmess] }

theorem mixedCatalog_mixes : MixesFit mixedRequest (catalogOf mixedCatalog) scantContext := by
  intro available wanted havailable hwanted _ picks hpicks hroom
  have hcatalog : catalog (catalogOf mixedCatalog) = .ok mixedCatalog := by decide +kernel
  have hids : ids mixedRequest.engineIds = .ok [vless, vmess] := by decide
  obtain rfl : mixedCatalog = available := Except.ok.inj (hcatalog.symm.trans havailable)
  obtain rfl : [vless, vmess] = wanted := Except.ok.inj (hids.symm.trans hwanted)
  obtain ⟨a, rest, ha, hrest, rfl⟩ := List.forall₂_cons_left_iff.1 hpicks
  obtain ⟨b, rest, hb, hnil, rfl⟩ := List.forall₂_cons_left_iff.1 hrest
  obtain rfl := List.forall₂_nil_left_iff.1 hnil
  have hvless : offers mixedCatalog scantContext vless = [packageOf vless 0, memoryOf vless] := by
    decide +kernel
  have hvmess : offers mixedCatalog scantContext vmess = [largeFlash, memoryOf vmess] := by
    decide +kernel
  rw [hvless, List.mem_pair] at ha
  rw [hvmess, List.mem_pair] at hb
  rcases hb with rfl | rfl
  · -- beside either of the others it has no room
    have := hroom [a] largeFlash [] rfl rfl
    rcases ha with rfl | rfl <;> exact absurd this (by decide)
  · rcases ha with rfl | rfl <;> decide

/-- One engine goes into the flash and one into the memory. -/
theorem auto_never_worse_two :
    Succeeds
      (plan (fun _ => []) { mixedRequest with storage := some .auto } (catalogOf mixedCatalog)
      defaults.raw scantContext (digestOf 0) (digestOf 1) 1000) ∧
    MixesFit (requestFor .add vless 0) (catalogOf mixedCatalog) scantContext := by
  have hram : Succeeds (plan (fun _ => []) { mixedRequest with storage := some .ram }
      (catalogOf mixedCatalog) defaults.raw scantContext (digestOf 0) (digestOf 1) 1000) := by
    decide +kernel
  have hauto : Succeeds (plan (fun _ => []) { requestFor .add vless 0 with storage := some .auto }
      (catalogOf mixedCatalog) defaults.raw scantContext (digestOf 0) (digestOf 1) 1000) := by
    decide +kernel
  obtain ⟨available, wanted, hadmitted, -⟩ := plan_add_succeeds.1 hauto
  have hids : ids (requestFor .add vless 0).engineIds = .ok [vless] := by decide
  obtain rfl : [vless] = wanted := Except.ok.inj (hids.symm.trans hadmitted.wanted)
  refine ⟨(auto_never_worse _ mixedRequest (catalogOf mixedCatalog) _ _ _ _ _).1
    mixedCatalog_mixes .ram
    (Or.inr rfl) hram, ?_⟩
  exact (auto_never_worse (fun _ => []) (requestFor .add vless 0) (catalogOf mixedCatalog) _ _ _ _
    _).2 available vless hadmitted fun _ _ _ => hauto

end Foxhole.Engine
