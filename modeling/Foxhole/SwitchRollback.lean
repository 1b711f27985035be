import Foxhole.RamSwitch
import Foxhole.Lib.Trace

/-! A failed switch is taken back: the lists in the journal say what was done to the mounts and to
the tree, and undoing them from their ends leads back to where the switch began. -/
namespace Foxhole.RamSwitch
open Text Command Trace

/-- The switch takes down the read-only mount that a row speaks of. -/
def Unbound (env : Env) (ms : Text → List Mount) (row : Row) (ms' : Text → List Mount) : Prop :=
  ∃ source, env.sources row.source = some source ∧ row.Describes source ∧
    ms row.target = [⟨source.file, true⟩] ∧ ms' = Function.update ms row.target []

/-- It mounts what a row speaks of where nothing is mounted. -/
def Bound (env : Env) (ms : Text → List Mount) (row : Row) (ms' : Text → List Mount) : Prop :=
  ∃ source readonly, env.sources row.source = some source ∧ row.Describes source ∧
    ms row.target = [] ∧ ms' = Function.update ms row.target [⟨source.file, readonly⟩]

/-- It makes a node in a directory. -/
def Made (tree : List (Text × Kind)) (row : Created) (tree' : List (Text × Kind)) : Prop :=
  tree.lookup row.path = none ∧ tree.lookup (dirname row.path) = some .directory ∧
    tree' = (row.path, row.type) :: tree

/-- Whatever is there lies in a directory. -/
def Closed (tree : List (Text × Kind)) : Prop :=
  ∀ x ∈ tree, tree.lookup (dirname x.1) = some .directory

section Logs
variable {env : Env} {ms ms' : Text → List Mount} {tree tree' : List (Text × Kind)} {row : Row}
  {rows : List Row} {made : List Created} {path : Text}

theorem unbound_run_none (h : Run (Unbound env) ms rows ms') (hp : ms path = []) :
    ms' path = [] := by
  refine h.invariant (I := fun ms => ms path = []) ?_ hp
  rintro s row _ hs ⟨_, -, -, -, rfl⟩
  by_cases he : path = row.target
  · rw [he, Function.update_self]
  · rw [Function.update_of_ne he, hs]

/-- What is mounted still was mounted before. -/
theorem unbound_run_some (h : Run (Unbound env) ms rows ms') (hp : ms' path ≠ []) :
    ms path = ms' path := by
  induction h with
  | refl => rfl
  | @stepL s u t row rows hstep hrun ih =>
    obtain ⟨source, -, -, hs, rfl⟩ := hstep
    have hne : path ≠ row.target := by
      rintro rfl
      exact hp (unbound_run_none hrun (Function.update_self ..))
    rw [← ih hp, Function.update_of_ne hne]

theorem unbound_run_rows (h : Run (Unbound env) ms rows ms') :
    ∀ row ∈ rows, ms' row.target = [] := by
  intro row hrow
  obtain ⟨_, _, u, v, -, -, ⟨_, -, -, -, rfl⟩, hrest⟩ := h.split hrow
  exact unbound_run_none hrest (Function.update_self ..)

theorem bound_run_some (h : Run (Bound env) ms rows ms') (hp : ms path ≠ []) :
    ms' path = ms path := by
  refine h.invariant (I := fun s => s path = ms path) ?_ rfl
  rintro s row _ hs ⟨_, _, -, -, hnone, rfl⟩
  have hne : path ≠ row.target := by
    rintro rfl
    exact hp (hs ▸ hnone)
  rw [Function.update_of_ne hne, hs]

theorem bound_run_rows (h : Run (Bound env) ms rows ms') : ∀ row ∈ rows, ms' row.target ≠ [] := by
  intro row hrow
  obtain ⟨_, _, u, v, -, -, ⟨_, _, -, -, -, rfl⟩, hrest⟩ := h.split hrow
  rw [bound_run_some hrest (by rw [Function.update_self]; exact List.cons_ne_nil _ _),
    Function.update_self]
  exact List.cons_ne_nil _ _

theorem run_concat {σ α : Type} {step : σ → α → σ → Prop} {s t : σ} {xs : List α} {a : α} :
    Run step s (xs ++ [a]) t ↔ ∃ u, Run step s xs u ∧ step u a t := by
  rw [run_append]
  constructor
  · rintro ⟨u, hu, hr⟩
    obtain ⟨v, hv, hr⟩ := run_cons.1 hr
    exact ⟨u, hu, run_nil.1 hr ▸ hv⟩
  · rintro ⟨u, hu, hr⟩
    exact ⟨u, hu, .single hr⟩

theorem lookup_made {row : Created} (h : Made tree row tree') {kind : Kind}
    (hp : tree.lookup path = some kind) : tree'.lookup path = some kind := by
  obtain ⟨hnone, -, rfl⟩ := h
  have hne : path ≠ row.path := by
    rintro rfl
    rw [hnone] at hp
    cases hp
  rw [List.lookup_cons, beq_false_of_ne hne]
  exact hp

theorem made_run_lookup (h : Run Made tree made tree') {kind : Kind}
    (hp : tree.lookup path = some kind) : tree'.lookup path = some kind :=
  h.invariant (I := fun tree => tree.lookup path = some kind)
    (fun _ _ _ hs hm => lookup_made hm hs) hp

theorem made_closed {row : Created} (h : Made tree row tree') (hc : Closed tree) :
    Closed tree' := by
  intro x hx
  refine lookup_made h ?_
  obtain ⟨-, hparent, rfl⟩ := h
  rcases List.mem_cons.1 hx with rfl | hx
  · exact hparent
  · exact hc x hx

theorem made_run_closed (h : Run Made tree made tree') (hc : Closed tree) : Closed tree' :=
  h.invariant (fun _ _ _ hs hm => made_closed hm hs) hc

theorem lookup_none : tree.lookup path = none ↔ ∀ x ∈ tree, x.1 ≠ path := by
  rw [List.lookup_eq_none_iff]
  refine forall₂_congr fun x _ => ?_
  rw [bne_iff_ne]
  exact ne_comm

theorem lookup_mem {kind : Kind} (h : tree.lookup path = some kind) : (path, kind) ∈ tree := by
  obtain ⟨l₁, l₂, rfl, -⟩ := List.lookup_eq_some_iff.1 h
  exact List.mem_append_right _ List.mem_cons_self

/-- Nothing lies below a node that was just made. -/
theorem made_empty {row : Created} (h : Made tree row tree') (hc : Closed tree) :
    ∀ x ∈ tree', dirname x.1 = row.path → x.1 = row.path := by
  obtain ⟨hnone, -, rfl⟩ := h
  intro x hx hd
  rcases List.mem_cons.1 hx with rfl | hx
  · rfl
  · have := hc x hx
    rw [hd, hnone] at this
    cases this

theorem made_filter {row : Created} (h : Made tree row tree') :
    tree'.filter (fun x => x.1 ≠ row.path) = tree := by
  obtain ⟨hnone, -, rfl⟩ := h
  rw [List.filter_cons_of_neg (by simp), List.filter_eq_self]
  intro x hx
  simpa using lookup_none.1 hnone x hx

end Logs

/-- What `preparation` and the boot link have left for the switch. -/
structure Prepared (env : Env) (w : World) : Prop where
  previousLedger : w.journal.previousLedger.Valid w.journal.previousMarker
  newLedger : w.journal.newLedger.Valid w.journal.newMarker
  described : ∀ row ∈ w.journal.newLedger.mounts,
    ∃ source, env.sources row.source = some source ∧ row.Describes source
  unmounted : w.journal.unmounted = []
  mounted : w.journal.mounted = []
  created : w.journal.created = []
  marker : w.marker = w.journal.previousMarker
  boot : w.boot = w.journal.bootstrap.oldRaw
  bootstrap : env.journalValid w.journal.bootstrap = true
  closed : Closed w.tree
  targets : ∀ target, ∀ m ∈ w.mounts target, w.lstat target = some m.file.kind

/-- The members of the journal that the switch reads only. -/
structure Journal.Fixed (j j₀ : Journal) : Prop where
  previousMarker : j.previousMarker = j₀.previousMarker
  newMarker : j.newMarker = j₀.newMarker
  previousLedger : j.previousLedger = j₀.previousLedger
  newLedger : j.newLedger = j₀.newLedger
  bootstrap : j.bootstrap = j₀.bootstrap

/-- The lists of the journal account for all that differs from the beginning. -/
structure Inv (env : Env) (w₀ w : World) : Prop where
  quiesced : w.journal.quiesceStarted = true
  fixed : w.journal.Fixed w₀.journal
  marker : w.marker = w₀.journal.previousMarker ∨ w.marker = w₀.journal.newMarker
  boot : w.boot = w₀.journal.bootstrap.oldRaw ∨ w.boot = w₀.journal.bootstrap.newRaw
  created : Run Made w₀.tree w.journal.created w.tree
  mounts : ∃ base, Run (Unbound env) w₀.mounts w.journal.unmounted base ∧
    Run (Bound env) base w.journal.mounted w.mounts
  targets : ∀ row ∈ w.journal.mounted, ∃ kind, w.lstat row.target = some kind

/-- The commands that are entered into the journal when they return. -/
def Entered (argv : List Text) : Prop :=
  argv.head? = some "/bin/umount".toList ∨
    argv.take 2 = ["/bin/mount".toList, "--bind".toList] ∨ argv.head? = some "create".toList

instance (argv : List Text) : Decidable (Entered argv) := inferInstanceAs (Decidable (_ ∨ _))

/-- Of the calls made so far, none that would have been entered took effect and was reported as a
failure. -/
def Plain (env : Env) : List (List Text) → Prop
  | [] => True
  | argv :: calls => (Entered argv → env.outcome calls.length argv ≠ .late) ∧ Plain env calls

instance decidablePlain (env : Env) : (calls : List (List Text)) → Decidable (Plain env calls)
  | [] => inferInstanceAs (Decidable True)
  | argv :: calls =>
    have : Decidable (Plain env calls) := decidablePlain env calls
    inferInstanceAs
      (Decidable ((Entered argv → env.outcome calls.length argv ≠ .late) ∧ Plain env calls))

/-- The lists account for everything, unless such a call is behind the failure. -/
def Accounted (env : Env) (w₀ w : World) : Prop := Plain env w.calls → Inv env w₀ w

section Forward
variable {env : Env} {w₀ w : World} {P Q E : World → Prop} {row : Row}

theorem Prepared.inv (h : Prepared env w₀) :
    Inv env w₀ { w₀ with journal := { w₀.journal with quiesceStarted := true } } where
  quiesced := rfl
  fixed := ⟨rfl, rfl, rfl, rfl, rfl⟩
  marker := Or.inl h.marker
  boot := Or.inl h.boot
  created := by
    simp only [h.created]
    exact .refl _
  mounts := by
    simp only [h.unmounted, h.mounted]
    exact ⟨w₀.mounts, .refl _, .refl _⟩
  targets := by
    simp only [h.mounted]
    nofun

/-- The calls made and the file of the journal do not matter. -/
def Steady (P : World → Prop) : Prop :=
  ∀ w calls saved, P w → P { w with calls := calls, saved := saved }

theorem Inv.steady : Steady (Inv env w₀) :=
  fun _ _ _ h => ⟨h.quiesced, h.fixed, h.marker, h.boot, h.created, h.mounts, h.targets⟩

/-- Nor do the marks of the journal's progress. -/
theorem Inv.marks (h : Inv env w₀ w) {phase : Phase} {rpcStopped restarted : Bool} :
    Inv env w₀ { w with journal := { w.journal with
      phase := phase, rpcStopped := rpcStopped, restarted := restarted } } :=
  ⟨h.quiesced, ⟨h.fixed.1, h.fixed.2, h.fixed.3, h.fixed.4, h.fixed.5⟩, h.marker, h.boot,
    h.created, h.mounts,
    h.targets⟩

theorem Inv.accounted (h : Inv env w₀ w) : Accounted env w₀ w := fun _ => h

theorem ask_meets (hP : Steady P) {argv : List Text} :
    Meets P (ask env argv)
      (fun out w => P w ∧ ∃ calls, w.calls = argv :: calls ∧ out = env.outcome calls.length argv)
      E :=
  fun w hs => ⟨hP w _ w.saved hs, w.calls, rfl, rfl⟩

theorem command_meets (hP : Steady P) (hE : ∀ w, P w → E w) {argv : List Text} :
    Meets P (command env argv) (fun _ => P) E :=
  meets_bind (ask_meets hP) fun _ => meets_ensure (fun _ hs _ => hs.1) fun w hs => hE w hs.1

/-- A command that takes effect leads on; reported late, it leads to what is left of a failure. -/
theorem act_meets {argv : List Text} {effect : World → Option World} (hP : Steady P)
    (hE : ∀ w, P w → E w) (hQ : ∀ w w', P w → effect w = some w' → Q w')
    (hlate : ∀ w w' calls, P w → w.calls = argv :: calls → env.outcome calls.length argv = .late →
      effect w = some w' → E w') :
    Meets P (act env argv effect) (fun _ => Q) E := by
  unfold act
  refine meets_bind (ask_meets hP) fun out => ?_
  refine meets_bind (Q := fun _ w => P w ∧ ∃ calls, w.calls = argv :: calls ∧
      out = env.outcome calls.length argv) (meets_ensure (fun _ hs _ => hs) fun w hs => hE w hs.1)
    fun _ => ?_
  refine meets_bind (meets_get (Q := fun a w => (P w ∧ ∃ calls, w.calls = argv :: calls ∧
      out = env.outcome calls.length argv) ∧ a = w) fun _ hs => ⟨hs, rfl⟩) fun a => ?_
  cases heffect : effect a with
  | none => exact meets_throw fun w hs => hE w hs.1.1
  | some w' =>
    by_cases hout : out = .late
    · refine meets_bind (Q := fun _ => E) (meets_modify ?_) fun _ =>
        meets_ensure (fun _ _ hne => absurd hout hne) fun _ hs => hs
      rintro w ⟨⟨hs, calls, hcalls, hout'⟩, rfl⟩
      exact hlate _ w' calls hs hcalls (hout' ▸ hout) heffect
    · refine meets_bind (Q := fun _ => Q) (meets_modify ?_) fun _ =>
        meets_ensure_of hout fun _ hs => hs
      rintro w ⟨⟨hs, -⟩, rfl⟩
      exact hQ _ w' hs heffect

theorem replace_meets {g : World → World} (hP : Steady P) (hg : ∀ w, P w → Q (g w))
    (hE : ∀ w, P w → E w) (hQ : ∀ w, Q w → E w) {path : Text} :
    Meets P (replace env path g) (fun _ => Q) E := by
  refine act_meets hP hE ?_ ?_
  · rintro w w' hs ⟨⟩
    exact hg w hs
  · rintro w w' calls hs - - ⟨⟩
    exact hQ _ (hg w hs)

theorem saveJournal_meets (hP : Steady P) (hE : ∀ w, P w → E w) :
    Meets P (saveJournal env) (fun _ => P) E :=
  replace_meets hP (fun w hs => hP w w.calls w.journal hs) hE hE

theorem initScripts_meets (hcommand : ∀ argv, Meets P (command env argv) (fun _ => P) E)
    (names : List String) (action : String) :
    Meets P (names.forM fun name => initScript env name action) (fun _ => P) E :=
  meets_forM (P := fun _ => P) (fun _ _ => hcommand _) names

/-- The services are stopped, and nothing else happens. -/
theorem stopServices_meets (hcommand : ∀ argv, Meets P (command env argv) (fun _ => P) E)
    (hsave : Meets P (saveJournal env) (fun _ => P) E)
    (hstart : ∀ w, Q w → P { w with journal := { w.journal with quiesceStarted := true } })
    (hmarks : ∀ w phase rpcStopped, P w →
      P { w with journal := { w.journal with phase := phase, rpcStopped := rpcStopped } }) :
    Meets Q (stopServices env) (fun _ => P) E := by
  unfold stopServices
  refine meets_bind (Q := fun _ => P) (meets_modify hstart) fun _ => meets_bind hsave fun _ => ?_
  refine meets_bind (initScripts_meets hcommand _ _) fun _ => meets_bind (hcommand _) fun _ => ?_
  refine meets_bind (Q := fun _ => P) (meets_modify fun w hs => hmarks w _ true hs) fun _ => ?_
  refine meets_bind hsave fun _ => meets_bind (hcommand _) fun _ => meets_bind (hcommand _) fun _ =>
    ?_
  exact meets_bind (Q := fun _ => P) (meets_modify fun w hs => hmarks w .quiesced _ hs) fun _ =>
    hsave

theorem startServices_meets (hcommand : ∀ argv, Meets P (command env argv) (fun _ => P) E) :
    Meets P (startServices env) (fun _ => P) E := by
  unfold startServices
  refine meets_bind (meets_get (Q := fun _ => P) fun _ hs => hs) fun _ => ?_
  refine meets_bind (Q := fun _ => P) (meets_onlyIf (fun _ => hcommand _) fun _ hs => hs)
    fun _ => meets_onlyIf (fun _ => initScripts_meets hcommand _ _) fun _ hs => hs

/-- The mount that a row speaks of is there, and read-only. -/
def Verified (env : Env) (row : Row) (ms : Text → List Mount) : Prop :=
  ∃ source, env.sources row.source = some source ∧ row.Describes source ∧
    ms row.target = [⟨source.file, true⟩]

theorem verifyMount_meets (hE : ∀ w, P w → E w) :
    Meets P (verifyMount env row true) (fun _ w => P w ∧ Verified env row w.mounts) E := by
  unfold verifyMount
  refine meets_bind (meets_get (Q := fun a w => P w ∧ a = w) fun _ hs => ⟨hs, rfl⟩) fun a => ?_
  cases hsource : env.sources row.source with
  | none => exact meets_throw fun w hs => hE w hs.1
  | some source =>
    match hm : a.mounts row.target with
    | [] => exact meets_throw fun w hs => hE w hs.1
    | _ :: _ :: _ => exact meets_throw fun w hs => hE w hs.1
    | [m] =>
      refine meets_ensure ?_ fun w hs => hE w hs.1
      rintro w ⟨hs, rfl⟩ ⟨-, hdescribes, hfile, hreadonly⟩
      refine ⟨hs, source, hsource, hdescribes, hm.trans ?_⟩
      rw [← hfile, ← hreadonly rfl]

/-- A call that would have been entered, reported late, is behind the failure. -/
theorem not_plain {argv : List Text} {calls : List (List Text)} (hargv : Entered argv)
    (hcalls : w.calls = argv :: calls) (hlate : env.outcome calls.length argv = .late) :
    Accounted env w₀ w := by
  intro hplain
  rw [hcalls] at hplain
  exact absurd hlate (hplain.1 hargv)

theorem unmount_eq_some {target : Text} {w' : World} : w.unmount target = some w' ↔
    ∃ top rest, w.mounts target = top :: rest ∧ w' = w.bind target rest := by
  unfold World.unmount
  cases w.mounts target <;> simp [eq_comm]

theorem makeReadonly_eq_some {target : Text} {w' : World} : w.makeReadonly target = some w' ↔
    ∃ top rest, w.mounts target = top :: rest ∧ w' = w.bind target (⟨top.file, true⟩ :: rest) := by
  unfold World.makeReadonly
  cases w.mounts target <;> simp [eq_comm]

theorem mount_eq_some {source target : Text} {w' : World} : w.mount env source target = some w' ↔
    ∃ found, env.sources source = some found ∧ w.lstat target = some found.file.kind ∧
      w' = w.bind target (⟨found.file, false⟩ :: w.mounts target) := by
  unfold World.mount
  cases env.sources source with
  | none => simp
  | some found => simp [eq_comm]

/-- A command that would be entered when it returns. -/
theorem entered_meets {argv : List Text} {effect : World → Option World} (hargv : Entered argv)
    (hP : Steady P) (hE : ∀ w, P w → Inv env w₀ w) (hQ : ∀ w w', P w → effect w = some w' → Q w')
    (hcalls : ∀ w w', effect w = some w' → w'.calls = w.calls) :
    Meets P (act env argv effect) (fun _ => Q) (Accounted env w₀) :=
  act_meets hP (fun w hs => (hE w hs).accounted) hQ fun w w' _ _ hmade hlate heffect =>
    not_plain hargv ((hcalls w w' heffect).trans hmade) hlate

/-- A row enters the list of the unmounted. -/
theorem Inv.unmount (h : Inv env w₀ w) (hmounted : w.journal.mounted = [])
    (hrow : Verified env row w.mounts) :
    Inv env w₀ { w with
      mounts := Function.update w.mounts row.target []
      journal := { w.journal with unmounted := w.journal.unmounted ++ [row] } } where
  quiesced := h.quiesced
  fixed := ⟨h.fixed.1, h.fixed.2, h.fixed.3, h.fixed.4, h.fixed.5⟩
  marker := h.marker
  boot := h.boot
  created := h.created
  mounts := by
    obtain ⟨base, hun, hbound⟩ := h.mounts
    rw [hmounted] at hbound
    obtain rfl := run_nil.1 hbound
    obtain ⟨source, hsource, hdescribes, hm⟩ := hrow
    refine ⟨_, hun.stepR ⟨source, hsource, hdescribes, hm, rfl⟩, ?_⟩
    simp only [hmounted]
    exact .refl _
  targets := h.targets

/-- A row enters the list of the mounted. -/
theorem Inv.mount (h : Inv env w₀ w) {source : Source}
    (hsource : env.sources row.source = some source)
    (hdescribes : row.Describes source) (hnone : w.mounts row.target = [])
    (hkind : w.lstat row.target = some source.file.kind) :
    Inv env w₀ { w with
      mounts := Function.update w.mounts row.target [⟨source.file, false⟩]
      journal := { w.journal with mounted := w.journal.mounted ++ [row] } } where
  quiesced := h.quiesced
  fixed := ⟨h.fixed.1, h.fixed.2, h.fixed.3, h.fixed.4, h.fixed.5⟩
  marker := h.marker
  boot := h.boot
  created := h.created
  mounts := by
    obtain ⟨base, hun, hbound⟩ := h.mounts
    exact ⟨base, hun, hbound.stepR ⟨source, false, hsource, hdescribes, hnone, rfl⟩⟩
  targets := by
    intro r hr
    rcases List.mem_append.1 hr with hr | hr
    · exact h.targets r hr
    · rw [List.mem_singleton.1 hr]
      exact ⟨_, hkind⟩

/-- The last mount is made read-only. -/
theorem Inv.remount (h : Inv env w₀ w) {rows : List Row} (hrows : w.journal.mounted = rows ++ [row])
    {top : Mount} {rest : List Mount} (hm : w.mounts row.target = top :: rest) :
    Inv env w₀ (w.bind row.target (⟨top.file, true⟩ :: rest)) where
  quiesced := h.quiesced
  fixed := h.fixed
  marker := h.marker
  boot := h.boot
  created := h.created
  mounts := by
    obtain ⟨base, hun, hbound⟩ := h.mounts
    rw [hrows, run_concat] at hbound
    obtain ⟨ms, hbound, source, readonly, hsource, hdescribes, hnone, hms⟩ := hbound
    rw [hms, Function.update_self] at hm
    obtain ⟨rfl, rfl⟩ := List.cons.inj hm
    refine ⟨base, hun, ?_⟩
    simp only [World.bind, hrows, hms, Function.update_idem]
    exact run_concat.2 ⟨ms, hbound, source, true, hsource, hdescribes, hnone, rfl⟩
  targets := h.targets

/-- A node enters the list of the created. -/
theorem Inv.make (h : Inv env w₀ w) {path : Text} {type : Kind} (hnone : w.lstat path = none)
    (hparent : w.lstat (dirname path) = some .directory) :
    Inv env w₀ { w with
      tree := (path, type) :: w.tree
      journal := { w.journal with created := w.journal.created ++ [⟨path, type⟩] } } where
  quiesced := h.quiesced
  fixed := ⟨h.fixed.1, h.fixed.2, h.fixed.3, h.fixed.4, h.fixed.5⟩
  marker := h.marker
  boot := h.boot
  created := h.created.stepR ⟨hnone, hparent, rfl⟩
  mounts := h.mounts
  targets := by
    intro r hr
    obtain ⟨kind, hk⟩ := h.targets r hr
    have hmade : Made w.tree ⟨path, type⟩ ((path, type) :: w.tree) := ⟨hnone, hparent, rfl⟩
    exact ⟨kind, lookup_made hmade hk⟩

theorem unmountOld_meets (rest : List Row) :
    Meets (fun w => Inv env w₀ w ∧ w.journal.mounted = [] ∧
        (∀ r ∈ row :: rest, Verified env r w.mounts) ∧ ((row :: rest).map (·.target)).Nodup)
      (unmountOld env row)
      (fun _ w => Inv env w₀ w ∧ w.journal.mounted = [] ∧
        (∀ r ∈ rest, Verified env r w.mounts) ∧ (rest.map (·.target)).Nodup)
      (Accounted env w₀) := by
  unfold unmountOld umount
  refine meets_bind (entered_meets (Q := fun w => Inv env w₀ { w with journal :=
      { w.journal with unmounted := w.journal.unmounted ++ [row] } } ∧ w.journal.mounted = [] ∧
        (∀ r ∈ rest, Verified env r w.mounts) ∧ (rest.map (·.target)).Nodup)
    (Or.inl rfl) (fun w _ _ hs => ⟨Inv.steady _ _ _ hs.1, hs.2⟩) (fun _ hs => hs.1) ?_ ?_)
    fun _ => ?_
  · rintro w w' ⟨hs, hmounted, hverified, hnodup⟩ heffect
    obtain ⟨top, after, hm, rfl⟩ := unmount_eq_some.1 heffect
    have hrow := hverified row List.mem_cons_self
    obtain rfl : after = [] := by
      obtain ⟨_, -, -, he⟩ := hrow
      rw [he] at hm
      exact (List.cons.inj hm).2.symm
    rw [List.map_cons, List.nodup_cons] at hnodup
    refine ⟨hs.unmount hmounted hrow, hmounted, ?_, hnodup.2⟩
    intro r hr
    obtain ⟨source, hsource, hdescribes, he⟩ := hverified r (List.mem_cons_of_mem _ hr)
    have hne : r.target ≠ row.target :=
      fun hrt => hnodup.1 (hrt ▸ List.mem_map_of_mem hr)
    exact ⟨source, hsource, hdescribes, (Function.update_of_ne hne _ _).trans he⟩
  · rintro w w' heffect
    obtain ⟨-, -, -, rfl⟩ := unmount_eq_some.1 heffect
    rfl
  · refine meets_bind (Q := fun _ w => Inv env w₀ w ∧ w.journal.mounted = [] ∧
        (∀ r ∈ rest, Verified env r w.mounts) ∧ (rest.map (·.target)).Nodup)
      (meets_modify fun _ hs => hs) fun _ => saveJournal_meets
        (fun w _ _ hs => ⟨Inv.steady _ _ _ hs.1, hs.2⟩) fun _ hs => hs.1.accounted

theorem make_meets {target path : Text} {type : Kind} :
    Meets (fun w => Inv env w₀ w ∧ w.mounts target = []) (make env path type)
      (fun _ w => Inv env w₀ w ∧ w.mounts target = []) (Accounted env w₀) := by
  unfold make
  refine meets_bind (meets_get (Q := fun a w => (Inv env w₀ w ∧ w.mounts target = []) ∧ a = w)
    fun _ hs => ⟨hs, rfl⟩) fun a => ?_
  refine meets_bind (Q := fun _ w => (Inv env w₀ w ∧ w.mounts target = []) ∧
      w.lstat (dirname path) = some .directory ∧ w.lstat path = none)
    (meets_ensure ?_ fun _ hs => hs.1.1.accounted) fun _ => ?_
  · rintro w ⟨hs, rfl⟩ hp
    exact ⟨hs, hp⟩
  refine meets_bind (entered_meets (Q := fun w => Inv env w₀ { w with journal :=
      { w.journal with created := w.journal.created ++ [⟨path, type⟩] } } ∧ w.mounts target = [])
    (Or.inr (Or.inr rfl)) (fun w _ _ hs => ⟨⟨Inv.steady _ _ _ hs.1.1, hs.1.2⟩, hs.2⟩)
    (fun _ hs => hs.1.1) ?_ ?_) fun _ => ?_
  · rintro w w' hs ⟨⟩
    exact ⟨hs.1.1.make hs.2.2 hs.2.1, hs.1.2⟩
  · rintro w w' ⟨⟩
    rfl
  refine meets_bind (Q := fun _ w => Inv env w₀ w ∧ w.mounts target = [])
    (meets_modify fun _ hs => hs) fun _ => saveJournal_meets
      (fun w _ _ hs => ⟨Inv.steady _ _ _ hs.1, hs.2⟩) fun _ hs => hs.1.accounted

theorem absentTarget_meets {target : Text} {source : Option Source} :
    Meets (fun w => Inv env w₀ w ∧ w.mounts target = []) (absentTarget env target source)
      (fun _ w => Inv env w₀ w ∧ w.mounts target = []) (Accounted env w₀) := by
  unfold absentTarget
  refine meets_bind (meets_get (Q := fun _ w => Inv env w₀ w ∧ w.mounts target = [])
    fun _ hs => hs) fun a => meets_ite (fun _ => meets_pure fun _ hs => hs) fun _ => ?_
  cases missingFrom a 8 (dirname target) with
  | none => exact meets_throw fun _ hs => hs.1.accounted
  | some missing =>
    refine meets_bind (meets_forM (P := fun _ w => Inv env w₀ w ∧ w.mounts target = [])
      (fun _ _ => make_meets) missing.reverse) fun _ => ?_
    cases source with
    | none => exact meets_throw fun _ hs => hs.1.accounted
    | some found => exact make_meets

theorem mountNew_meets {source : Source} (hsource : env.sources row.source = some source)
    (hdescribes : row.Describes source) :
    Meets (Inv env w₀) (mountNew env row) (fun _ => Inv env w₀) (Accounted env w₀) := by
  unfold mountNew mountBind remount
  refine meets_bind (meets_get (Q := fun a w => Inv env w₀ w ∧ a = w) fun _ hs => ⟨hs, rfl⟩)
    fun a => ?_
  refine meets_bind (Q := fun _ w => Inv env w₀ w ∧ w.mounts row.target = [])
    (meets_ensure ?_ fun _ hs => hs.1.accounted) fun _ => meets_bind absentTarget_meets fun _ => ?_
  · rintro w ⟨hs, rfl⟩ hp
    exact ⟨hs, hp⟩
  refine meets_bind (entered_meets (Q := fun w => Inv env w₀ { w with journal :=
      { w.journal with mounted := w.journal.mounted ++ [row] } })
    (Or.inr (Or.inl rfl)) (fun w _ _ hs => ⟨Inv.steady _ _ _ hs.1, hs.2⟩) (fun _ hs => hs.1) ?_ ?_)
    fun _ => ?_
  · rintro w w' ⟨hs, hnone⟩ heffect
    obtain ⟨found, hfound, hkind, rfl⟩ := mount_eq_some.1 heffect
    rw [hsource, Option.some.injEq] at hfound
    subst hfound
    rw [hnone]
    exact hs.mount hsource hdescribes hnone hkind
  · rintro w w' heffect
    obtain ⟨-, -, -, rfl⟩ := mount_eq_some.1 heffect
    rfl
  refine meets_bind (Q := fun _ w => Inv env w₀ w ∧ ∃ rows, w.journal.mounted = rows ++ [row])
    (meets_modify fun w hs => ⟨hs, _, rfl⟩) fun _ => ?_
  have hsteady : Steady fun w => Inv env w₀ w ∧ ∃ rows, w.journal.mounted = rows ++ [row] :=
    fun w _ _ hs => ⟨Inv.steady _ _ _ hs.1, hs.2⟩
  refine meets_bind (saveJournal_meets hsteady fun _ hs => hs.1.accounted) fun _ => ?_
  -- the bind is in the journal by now, so a remount may be reported late
  have hremount : ∀ w w', (Inv env w₀ w ∧ ∃ rows, w.journal.mounted = rows ++ [row]) →
      w.makeReadonly row.target = some w' → Inv env w₀ w' := by
    rintro w w' ⟨hs, rows, hrows⟩ heffect
    obtain ⟨top, rest, hm, rfl⟩ := makeReadonly_eq_some.1 heffect
    exact hs.remount hrows hm
  refine meets_bind (act_meets (Q := Inv env w₀) hsteady (fun _ hs => hs.1.accounted) hremount
    fun w w' _ hs _ _ heffect => (hremount w w' hs heffect).accounted) fun _ => ?_
  exact (verifyMount_meets fun _ hs => hs.accounted).imp (fun _ hs => hs) fun _ _ hs => hs.1

theorem commitBootstrap_meets :
    Meets (Inv env w₀) (commitBootstrap env w₀.journal.bootstrap) (fun _ => Inv env w₀)
      (Accounted env w₀) := by
  have hkeep : ∀ w, Inv env w₀ w → Accounted env w₀ w := fun _ hs => hs.accounted
  unfold commitBootstrap
  refine meets_bind (Q := fun _ => Inv env w₀)
    (meets_ensure (fun _ hs _ => hs) hkeep) fun _ => ?_
  refine meets_bind (meets_get (Q := fun _ => Inv env w₀) fun _ hs => hs) fun _ => ?_
  refine meets_bind (Q := fun _ => Inv env w₀)
    (meets_ensure (fun _ hs _ => hs) hkeep) fun _ => ?_
  refine meets_bind (command_meets Inv.steady hkeep) fun _ => ?_
  refine meets_bind (Q := fun _ => Inv env w₀) (meets_onlyIf (fun _ => replace_meets Inv.steady ?_
    hkeep hkeep) fun _ hs => hs) fun _ => ?_
  · intro w h
    exact ⟨h.quiesced, h.fixed, h.marker, Or.inr rfl, h.created, h.mounts, h.targets⟩
  · refine meets_bind (meets_get (Q := fun _ => Inv env w₀) fun _ hs => hs) fun _ => ?_
    exact meets_ensure (fun _ hs _ => hs) hkeep

/-- Wherever the switch ends, its lists account for what it has done. -/
theorem switchover_meets (prepared : Prepared env w₀) :
    Meets (fun w => w = w₀) (switchover env) (fun _ => Inv env w₀) (Accounted env w₀) := by
  have hsteady : Steady fun w => Inv env w₀ w ∧ w.journal.mounted = [] :=
    fun w _ _ hs => ⟨Inv.steady _ _ _ hs.1, hs.2⟩
  have hkeep : ∀ w, Inv env w₀ w → Accounted env w₀ w := fun _ hs => hs.accounted
  unfold switchover
  refine meets_bind (stopServices_meets (fun _ => command_meets hsteady fun _ hs => hs.1.accounted)
    (saveJournal_meets hsteady fun _ hs => hs.1.accounted) ?_
    fun w phase rpcStopped hs => ⟨hs.1.marks, hs.2⟩) fun _ => ?_
  · rintro w rfl
    exact ⟨prepared.inv, prepared.mounted⟩
  refine meets_bind (command_meets hsteady fun _ hs => hs.1.accounted) fun _ => ?_
  refine meets_bind (meets_get (Q := fun a w => (Inv env w₀ w ∧ w.journal.mounted = []) ∧ a = w)
    fun _ hs => ⟨hs, rfl⟩) fun a => ?_
  refine meets_of (p := a.journal.Fixed w₀.journal) ?_ fun w hs => hs.2 ▸ hs.1.1.fixed
  intro hfixed
  simp only [hfixed.previousLedger, hfixed.newLedger, hfixed.bootstrap]
  refine meets_bind (Q := fun _ w => Inv env w₀ w ∧ w.journal.mounted = [])
    (meets_ensure (fun _ hs _ => hs.1) fun _ hs => hs.1.1.accounted) fun _ => ?_
  -- the old mounts are checked, then taken down
  refine meets_bind (Q := fun _ w => Inv env w₀ w ∧ w.journal.mounted = [] ∧
      ∀ r ∈ w₀.journal.previousLedger.mounts, Verified env r w.mounts) ?_ fun _ => ?_
  · refine (meets_forM (P := fun rest w => (Inv env w₀ w ∧ w.journal.mounted = []) ∧
      ∀ r ∈ w₀.journal.previousLedger.mounts, r ∉ rest → Verified env r w.mounts)
      (fun row rest => ?_) _).imp (fun w hs => ⟨hs, fun r hr hn => absurd hr hn⟩)
        fun _ w hs => ⟨hs.1.1, hs.1.2, fun r hr => hs.2 r hr List.not_mem_nil⟩
    refine (verifyMount_meets fun _ hs => hs.1.1.accounted).imp (fun _ hs => hs) ?_
    rintro - w ⟨⟨hs, hrest⟩, hrow⟩
    refine ⟨hs, fun r hr hn => ?_⟩
    by_cases he : r = row
    · exact he ▸ hrow
    · exact hrest r hr (by simp [he, hn])
  refine meets_bind (Q := fun _ => Inv env w₀) ?_ fun _ => ?_
  · exact (meets_forM (P := fun rest w => Inv env w₀ w ∧ w.journal.mounted = [] ∧
      (∀ r ∈ rest, Verified env r w.mounts) ∧ (rest.map (·.target)).Nodup)
      (fun _ rest => unmountOld_meets rest) w₀.journal.previousLedger.mounts).imp
      (fun w hs => ⟨hs.1, hs.2.1, hs.2.2, prepared.previousLedger.targets⟩) fun _ _ hs => hs.1
  -- the new ones are put up
  refine meets_bind (Q := fun _ => Inv env w₀) ?_ fun _ => ?_
  · refine (meets_forM (P := fun rest w => Inv env w₀ w ∧
        ∀ r ∈ rest, r ∈ w₀.journal.newLedger.mounts) (fun row rest => ?_)
      w₀.journal.newLedger.mounts).imp (fun w hs => ⟨hs, fun _ hr => hr⟩) fun _ _ hs => hs.1
    refine meets_of (p := ∀ r ∈ row :: rest, r ∈ w₀.journal.newLedger.mounts) ?_ fun _ hs => hs.2
    intro hrows
    obtain ⟨source, hsource, hdescribes⟩ := prepared.described row (hrows row List.mem_cons_self)
    exact (mountNew_meets hsource hdescribes).imp (fun _ hs => hs.1)
      fun _ _ hs => ⟨hs, fun r hr => hrows r (List.mem_cons_of_mem _ hr)⟩
  refine meets_bind (command_meets Inv.steady hkeep) fun _ => ?_
  refine meets_bind (command_meets Inv.steady hkeep) fun _ => ?_
  refine meets_bind (command_meets Inv.steady hkeep) fun _ => ?_
  refine meets_bind (replace_meets Inv.steady (fun w h => ⟨h.quiesced, h.fixed,
    Or.inr h.fixed.newMarker, h.boot, h.created, h.mounts, h.targets⟩) hkeep hkeep) fun _ => ?_
  refine meets_bind (Q := fun _ => Inv env w₀) (meets_modify fun w hs => hs.marks) fun _ => ?_
  refine meets_bind (saveJournal_meets Inv.steady hkeep) fun _ => ?_
  refine meets_bind commitBootstrap_meets fun _ => ?_
  refine meets_bind (command_meets Inv.steady hkeep) fun _ => ?_
  refine meets_bind (Q := fun _ => Inv env w₀) (meets_modify fun w hs => hs.marks) fun _ => ?_
  refine meets_bind (saveJournal_meets Inv.steady hkeep) fun _ => ?_
  exact meets_bind (startServices_meets fun _ => command_meets Inv.steady hkeep) fun _ =>
    command_meets Inv.steady hkeep

end Forward

/-! From here on the calls succeed. -/

section Backward
variable {env : Env} {w₀ w : World} {P Q E : World → Prop} {row : Row} {rows : List Row}

def Calm (env : Env) (w : World) : Prop :=
  ∀ n, w.calls.length ≤ n → ∀ argv, env.outcome n argv = .done

/-- What survives a call that succeeds. -/
structure Onward (env : Env) (P : World → Prop) : Prop where
  calm : ∀ w, P w → Calm env w
  next : ∀ w argv saved, P w → P { w with calls := argv :: w.calls, saved := saved }

theorem Calm.next {argv : List Text} {saved : Journal} (h : Calm env w) :
    Calm env { w with calls := argv :: w.calls, saved := saved } :=
  fun n hn => h n (Nat.le_of_succ_le hn)

theorem exec_ask (h : Calm env w) {argv : List Text} :
    exec (ask env argv) w = (.ok .done, { w with calls := argv :: w.calls }) := by
  unfold ask
  rw [exec_get_bind, exec_modify_bind, h w.calls.length le_rfl argv]
  rfl

theorem exec_command (h : Calm env w) {argv : List Text} :
    exec (command env argv) w = (.ok (), { w with calls := argv :: w.calls }) := by
  unfold command
  rw [exec_bind_of (exec_ask h), exec_ensure, if_pos rfl]

theorem exec_act (h : Calm env w) {argv : List Text} {effect : World → Option World} {w' : World}
    (heffect : effect { w with calls := argv :: w.calls } = some w') :
    exec (act env argv effect) w = (.ok (), w') := by
  unfold act
  rw [exec_bind_of (exec_ask h), exec_ensure_bind (by decide), exec_get_bind]
  simp only [heffect]
  rw [exec_modify_bind, exec_ensure, if_pos (by decide)]

theorem command_calm (h : Onward env P) (argv : List Text) :
    Meets P (command env argv) (fun _ => P) E := by
  intro w hs
  rw [exec_command (h.calm w hs)]
  exact h.next w argv w.saved hs

theorem act_calm (h : Onward env P) {argv : List Text} {effect : World → Option World}
    (heffect : ∀ w, P w → ∃ w', effect w = some w' ∧ Q w') :
    Meets P (act env argv effect) (fun _ => Q) E := by
  intro w hs
  obtain ⟨w', hw', hq⟩ := heffect _ (h.next w argv w.saved hs)
  rw [exec_act (h.calm w hs) hw']
  exact hq

theorem replace_calm (h : Onward env P) {path : Text} {g : World → World}
    (hg : ∀ w, P w → Q (g w)) : Meets P (replace env path g) (fun _ => Q) E :=
  act_calm h fun w hs => ⟨g w, rfl, hg w hs⟩

theorem saveJournal_calm (h : Onward env P) : Meets P (saveJournal env) (fun _ => P) E := by
  intro w hs
  have heffect : (fun w : World => some { w with saved := w.journal })
      { w with calls := [env.journalPath] :: w.calls } =
      some { w with calls := [env.journalPath] :: w.calls, saved := w.journal } := rfl
  unfold saveJournal replace
  rw [exec_act (h.calm w hs) heffect]
  exact h.next w [env.journalPath] w.journal hs

/-- What `verifyMount` asks of a mount. -/
theorem verifyMount_returns {readonly : Bool}
    (h : ∀ w, P w → w.lstat (dirname row.target) = some .directory ∧ ∃ source m,
      env.sources row.source = some source ∧ row.Describes source ∧
      w.mounts row.target = [⟨source.file, m⟩] ∧ (readonly = true → m = true)) :
    Meets P (verifyMount env row readonly) (fun _ => P) E := by
  intro w hs
  obtain ⟨hparent, source, m, hsource, hdescribes, hm, hreadonly⟩ := h w hs
  unfold verifyMount
  rw [exec_get_bind]
  simp only [hsource, hm]
  rw [exec_ensure, if_pos ⟨hparent, hdescribes, rfl, hreadonly⟩]
  exact hs

theorem filter_concat {key : Row → Text} (h : ∀ r ∈ rows, key r ≠ key row) :
    (rows ++ [row]).filter (fun item => key item ≠ key row) = rows := by
  rw [List.filter_append, List.filter_cons_of_neg (by simp), List.filter_nil, List.append_nil,
    List.filter_eq_self]
  exact fun r hr => by simpa using h r hr

theorem Inv.closed (h : Inv env w₀ w) (prepared : Prepared env w₀) : Closed w.tree :=
  made_run_closed h.created prepared.closed

theorem Inv.parent (h : Inv env w₀ w) (prepared : Prepared env w₀) {path : Text} {kind : Kind}
    (hp : w.lstat path = some kind) : w.lstat (dirname path) = some .directory :=
  h.closed prepared _ (lookup_mem hp)

/-- The last row of the mounted, taken back. -/
theorem Inv.last_mounted (h : Inv env w₀ w) (hrows : w.journal.mounted = rows ++ [row]) :
    (∃ source readonly, env.sources row.source = some source ∧ row.Describes source ∧
      w.mounts row.target = [⟨source.file, readonly⟩]) ∧
    w.journal.mounted.filter (fun item => item.target ≠ row.target) = rows ∧
    Inv env w₀ { w with
      mounts := Function.update w.mounts row.target []
      journal := { w.journal with mounted := rows } } := by
  obtain ⟨base, hun, hbound⟩ := h.mounts
  rw [hrows, run_concat] at hbound
  obtain ⟨ms, hbound, source, readonly, hsource, hdescribes, hnone, hms⟩ := hbound
  refine ⟨⟨source, readonly, hsource, hdescribes, by rw [hms, Function.update_self]⟩, ?_, ?_⟩
  · rw [hrows]
    exact filter_concat fun r hr he => bound_run_rows hbound r hr (he ▸ hnone)
  · have hback : Function.update w.mounts row.target [] = ms := by
      rw [hms, Function.update_idem, ← hnone, Function.update_eq_self]
    exact {
      quiesced := h.quiesced
      fixed := ⟨h.fixed.1, h.fixed.2, h.fixed.3, h.fixed.4, h.fixed.5⟩
      marker := h.marker
      boot := h.boot
      created := h.created
      mounts := ⟨base, hun, hback ▸ hbound⟩
      targets := fun r hr => h.targets r (hrows ▸ List.mem_append_left _ hr) }

/-- The last row of the unmounted, put back. -/
theorem Inv.last_unmounted (h : Inv env w₀ w) (hmounted : w.journal.mounted = [])
    (hrows : w.journal.unmounted = rows ++ [row]) :
    w.mounts row.target = [] ∧ ∃ source, env.sources row.source = some source ∧
      row.Describes source ∧ w₀.mounts row.target = [⟨source.file, true⟩] ∧
      w.journal.unmounted.filter (fun item => item.target ≠ row.target) = rows ∧
      Inv env w₀ { w with
        mounts := Function.update w.mounts row.target [⟨source.file, true⟩]
        journal := { w.journal with unmounted := rows } } := by
  obtain ⟨base, hun, hbound⟩ := h.mounts
  rw [hmounted] at hbound
  obtain rfl := run_nil.1 hbound
  rw [hrows, run_concat] at hun
  obtain ⟨ms, hun, source, hsource, hdescribes, hm, hms⟩ := hun
  have hsome : ms row.target ≠ [] := by
    rw [hm]
    exact List.cons_ne_nil _ _
  refine ⟨by rw [hms, Function.update_self], source, hsource, hdescribes,
    (unbound_run_some hun hsome).trans hm, ?_, ?_⟩
  · rw [hrows]
    exact filter_concat fun r hr he => hsome (he ▸ unbound_run_rows hun r hr)
  · have hback : Function.update w.mounts row.target [⟨source.file, true⟩] = ms := by
      rw [hms, Function.update_idem, ← hm, Function.update_eq_self]
    exact {
      quiesced := h.quiesced
      fixed := ⟨h.fixed.1, h.fixed.2, h.fixed.3, h.fixed.4, h.fixed.5⟩
      marker := h.marker
      boot := h.boot
      created := h.created
      mounts := ⟨ms, hun, by
        simp only [hmounted, hback]
        exact .refl _⟩
      targets := h.targets }

/-- The switch on its way back, with so many mounts still to remove. -/
def Removing (env : Env) (w₀ : World) (j : Journal) (rest : List Row) (w : World) : Prop :=
  Inv env w₀ w ∧ Calm env w ∧ w.journal.created = j.created ∧ w.journal.unmounted = j.unmounted ∧
    w.journal.mounted = rest.reverse

/-- And with so many to restore. -/
def Restoring (env : Env) (w₀ : World) (created : List Created) (rest : List Row) (w : World) :
    Prop :=
  Inv env w₀ w ∧ Calm env w ∧ w.journal.created = created ∧ w.journal.mounted = [] ∧
    w.journal.unmounted = rest.reverse

theorem Removing.onward {j : Journal} : Onward env (Removing env w₀ j rows) where
  calm _ hs := hs.2.1
  next _ _ _ hs := ⟨Inv.steady _ _ _ hs.1, hs.2.1.next, hs.2.2⟩

theorem Restoring.onward {created : List Created} : Onward env (Restoring env w₀ created rows) where
  calm _ hs := hs.2.1
  next _ _ _ hs := ⟨Inv.steady _ _ _ hs.1, hs.2.1.next, hs.2.2⟩

theorem removeMount_returns (prepared : Prepared env w₀) {j : Journal} (rest : List Row) :
    Meets (Removing env w₀ j (row :: rest)) (removeMount env row)
      (fun _ => Removing env w₀ j rest) E := by
  unfold removeMount umount
  refine meets_bind (verifyMount_returns ?_) fun _ => ?_
  · rintro w ⟨hs, -, -, -, hrows⟩
    rw [List.reverse_cons] at hrows
    obtain ⟨⟨source, readonly, hsource, hdescribes, hm⟩, -⟩ := hs.last_mounted hrows
    obtain ⟨kind, hk⟩ := hs.targets row (hrows ▸ by simp)
    exact ⟨hs.parent prepared hk, source, readonly, hsource, hdescribes, hm, nofun⟩
  refine meets_bind (act_calm (Q := fun w => Removing env w₀ j rest { w with journal :=
      { w.journal with mounted :=
        w.journal.mounted.filter fun item => item.target ≠ row.target } }) Removing.onward ?_)
    fun _ => ?_
  · rintro w ⟨hs, hcalm, hcreated, hunmounted, hrows⟩
    rw [List.reverse_cons] at hrows
    obtain ⟨⟨source, readonly, -, -, hm⟩, hfilter, hinv⟩ := hs.last_mounted hrows
    refine ⟨w.bind row.target [], unmount_eq_some.2 ⟨_, [], hm, rfl⟩, ?_, hcalm,
      hcreated, hunmounted,
      hfilter⟩
    simp only [World.bind, hfilter]
    exact hinv
  · exact meets_bind (Q := fun _ => Removing env w₀ j rest) (meets_modify fun _ hs => hs)
      fun _ => saveJournal_calm Removing.onward

/-- The mount of the next row is back, and the journal does not say so yet. -/
def Rebound (env : Env) (w₀ : World) (created : List Created) (row : Row) (rest : List Row)
    (readonly : Bool) (w : World) : Prop :=
  Restoring env w₀ created (row :: rest) (w.bind row.target []) ∧
    ∃ source, env.sources row.source = some source ∧ row.Describes source ∧
      w.mounts row.target = [⟨source.file, readonly⟩]

theorem Rebound.onward {created : List Created} {readonly : Bool} :
    Onward env (Rebound env w₀ created row rows readonly) where
  calm _ hs := hs.1.2.1
  next _ argv saved hs := ⟨Restoring.onward.next _ argv saved hs.1, hs.2⟩

theorem Restoring.target (prepared : Prepared env w₀) {created : List Created}
    (h : Restoring env w₀ created (row :: rows) w) :
    w.mounts row.target = [] ∧ ∃ source, env.sources row.source = some source ∧
      row.Describes source ∧ w.lstat row.target = some source.file.kind := by
  obtain ⟨hs, -, -, hmounted, hrows⟩ := h
  rw [List.reverse_cons] at hrows
  obtain ⟨hnone, source, hsource, hdescribes, hm, -⟩ := hs.last_unmounted hmounted hrows
  refine ⟨hnone, source, hsource, hdescribes, made_run_lookup hs.created ?_⟩
  exact prepared.targets row.target ⟨source.file, true⟩ (hm ▸ List.mem_cons_self)

theorem Rebound.restored {created : List Created}
    (h : Rebound env w₀ created row rows true w) :
    Restoring env w₀ created rows { w with journal := { w.journal with
      unmounted := w.journal.unmounted.filter (fun item => item.target ≠ row.target) } } := by
  obtain ⟨⟨hs, hcalm, hcreated, hmounted, hrows⟩, source, hsource, hdescribes, hm⟩ := h
  rw [List.reverse_cons] at hrows
  obtain ⟨-, other, hother, -, -, hfilter, hinv⟩ := hs.last_unmounted hmounted hrows
  rw [hsource, Option.some.injEq] at hother
  subst hother
  have hback : Function.update (Function.update w.mounts row.target []) row.target
      [⟨source.file, true⟩] = w.mounts := by
    rw [Function.update_idem, ← hm, Function.update_eq_self]
  simp only [World.bind, hback] at hinv hfilter
  refine ⟨?_, hcalm, hcreated, hmounted, hfilter⟩
  simp only [hfilter]
  exact hinv

theorem restoreMount_returns (prepared : Prepared env w₀) {created : List Created}
    (rest : List Row) :
    Meets (Restoring env w₀ created (row :: rest)) (restoreMount env row)
      (fun _ => Restoring env w₀ created rest) E := by
  unfold restoreMount bind mountBind remount
  refine meets_bind (meets_get (Q := fun a w => Restoring env w₀ created (row :: rest) w ∧ a = w)
    fun _ hs => ⟨hs, rfl⟩) fun a => ?_
  refine meets_of (p := a.mounts row.target = []) (fun hnone => ?_)
    fun w hs => hs.2 ▸ (hs.1.target prepared).1
  refine meets_bind (Q := fun _ => Restoring env w₀ created (row :: rest))
    (meets_ensure_of hnone fun _ hs => hs.1) fun _ => ?_
  refine meets_bind (Q := fun _ => Rebound env w₀ created row rest true) ?_ fun _ => ?_
  · refine meets_bind (act_calm (Q := Rebound env w₀ created row rest false) Restoring.onward ?_)
      fun _ => act_calm Rebound.onward ?_
    · intro w hs
      obtain ⟨hempty, source, hsource, hdescribes, hkind⟩ := hs.target prepared
      refine ⟨_, mount_eq_some.2 ⟨source, hsource, hkind, rfl⟩, ?_, source, hsource, hdescribes,
        by simp [World.bind, hempty]⟩
      have hsame : (w.bind row.target (⟨source.file, false⟩ :: w.mounts row.target)).bind
          row.target [] = w := by
        unfold World.bind
        rw [Function.update_idem, ← hempty, Function.update_eq_self]
      rw [hsame]
      exact hs
    · rintro w ⟨hs, source, hsource, hdescribes, hm⟩
      refine ⟨_, makeReadonly_eq_some.2 ⟨_, [], hm, rfl⟩, ?_, source, hsource, hdescribes,
        by simp [World.bind]⟩
      simp only [World.bind, Function.update_idem] at hs ⊢
      exact hs
  refine meets_bind (verifyMount_returns ?_) fun _ => ?_
  · rintro w ⟨hs, source, hsource, hdescribes, hm⟩
    obtain ⟨-, _, -, -, hkind⟩ := hs.target prepared
    exact ⟨hs.1.parent prepared hkind, source, true, hsource, hdescribes, hm, fun _ => rfl⟩
  · exact meets_bind (Q := fun _ => Restoring env w₀ created rest)
      (meets_modify fun _ hs => hs.restored) fun _ => saveJournal_calm Restoring.onward

/-- The mounts are back, and so many nodes are still to be removed. -/
structure Removed (env : Env) (w₀ : World) (rest : List Created) (w : World) : Prop where
  calm : Calm env w
  fixed : w.journal.Fixed w₀.journal
  marker : w.marker = w₀.journal.previousMarker ∨ w.marker = w₀.journal.newMarker
  boot : w.boot = w₀.journal.bootstrap.oldRaw ∨ w.boot = w₀.journal.bootstrap.newRaw
  created : Run Made w₀.tree rest.reverse w.tree
  mounts : w.mounts = w₀.mounts

theorem Removed.onward {rest : List Created} : Onward env (Removed env w₀ rest) where
  calm _ hs := hs.calm
  next _ _ _ hs := ⟨hs.calm.next, hs.fixed, hs.marker, hs.boot, hs.created, hs.mounts⟩

/-- Nothing was mounted on what the switch has made. -/
theorem made_run_fresh (prepared : Prepared env w₀) {made : List Created} {row : Created}
    {tree : List (Text × Kind)} (h : Run Made w₀.tree made tree)
    (hnone : tree.lookup row.path = none) :
    w₀.mounts row.path = [] := by
  rw [List.eq_nil_iff_forall_not_mem]
  intro m hm
  have := made_run_lookup h (prepared.targets row.path m hm)
  rw [hnone] at this
  cases this

theorem removeCreated_returns (prepared : Prepared env w₀) {row : Created} (rest : List Created) :
    Meets (Removed env w₀ (row :: rest)) (removeCreated env row)
      (fun _ => Removed env w₀ rest) E := by
  intro w hs
  have hlog := hs.created
  rw [List.reverse_cons, run_concat] at hlog
  obtain ⟨tree, hrun, hmade⟩ := hlog
  have hnone := hs.mounts ▸ made_run_fresh prepared hrun hmade.1
  have hlookup : w.lstat row.path = some row.type := by
    obtain ⟨-, -, he⟩ := hmade
    unfold World.lstat
    rw [he, List.lookup_cons_self]
  have hempty := made_empty hmade (made_run_closed hrun prepared.closed)
  have hback : Run Made w₀.tree rest.reverse (w.tree.filter fun x => x.1 ≠ row.path) := by
    rw [made_filter hmade]
    exact hrun
  have hremovable : row.Removable { w with calls := ["remove".toList, row.path] :: w.calls } :=
    ⟨hlookup, fun _ => hempty⟩
  unfold removeCreated remove
  rw [exec_get_bind, exec_ensure_bind hnone, exec_act hs.calm (if_pos hremovable)]
  exact {
    calm := fun n hn => hs.calm n (Nat.le_of_succ_le hn)
    fixed := hs.fixed
    marker := hs.marker
    boot := hs.boot
    created := hback
    mounts := hs.mounts }

/-- What the failed switch leaves: everything as it was before. -/
structure Restored (w₀ w : World) : Prop where
  mounts : w.mounts = w₀.mounts
  tree : w.tree = w₀.tree
  marker : w.marker = w₀.journal.previousMarker
  boot : w.boot = w₀.journal.bootstrap.oldRaw
  phase : w.journal.phase = .rolledBack

/-- The marker and the boot descriptor, and the services again. -/
theorem Removed.marked (h : Removed env w₀ [] w) :
    Removed env w₀ [] { w with marker := w.journal.previousMarker } :=
  ⟨h.calm, h.fixed, Or.inl h.fixed.previousMarker, h.boot, h.created, h.mounts⟩

theorem restoreMarker_returns :
    Meets (Removed env w₀ []) (restoreMarker env)
      (fun _ w => Removed env w₀ [] w ∧ w.marker = w₀.journal.previousMarker) E := by
  unfold restoreMarker
  refine meets_bind (meets_get (Q := fun a w => Removed env w₀ [] w ∧ a = w) fun _ hs => ⟨hs, rfl⟩)
    fun a => meets_of (p := Removed env w₀ [] a) (fun ha => ?_) fun _ hs => hs.2 ▸ hs.1
  refine meets_bind (Q := fun _ => Removed env w₀ []) (meets_ensure_of ?_ fun _ hs => hs.1) fun _ =>
    replace_calm Removed.onward fun w hs => ⟨hs.marked, hs.fixed.previousMarker⟩
  rw [ha.fixed.previousMarker, ha.fixed.newMarker]
  exact ha.marker

theorem restoreBootstrap_returns (prepared : Prepared env w₀) :
    Meets (fun w => Removed env w₀ [] w ∧ w.marker = w₀.journal.previousMarker)
      (restoreBootstrap env w₀.journal.bootstrap)
      (fun _ w => Removed env w₀ [] w ∧ w.marker = w₀.journal.previousMarker ∧
        w.boot = w₀.journal.bootstrap.oldRaw) E := by
  have honward : Onward env fun w => Removed env w₀ [] w ∧ w.marker = w₀.journal.previousMarker :=
    ⟨fun _ hs => hs.1.calm, fun _ _ _ hs => ⟨Removed.onward.next _ _ _ hs.1, hs.2⟩⟩
  unfold restoreBootstrap
  refine meets_bind (Q := fun _ w => Removed env w₀ [] w ∧ w.marker = w₀.journal.previousMarker)
    (meets_ensure_of prepared.bootstrap fun _ hs => hs) fun _ => ?_
  refine meets_bind (meets_get (Q := fun a w => (Removed env w₀ [] w ∧
    w.marker = w₀.journal.previousMarker) ∧ a = w) fun _ hs => ⟨hs, rfl⟩) fun a => ?_
  refine meets_of (p := Removed env w₀ [] a) (fun ha => ?_) fun _ hs => hs.2 ▸ hs.1.1
  refine meets_bind (Q := fun _ w => (Removed env w₀ [] w ∧ w.marker = w₀.journal.previousMarker) ∧
    a.boot = w.boot) (meets_ensure_of ha.boot fun _ hs => ⟨hs.1, hs.2 ▸ rfl⟩) fun _ => ?_
  refine meets_bind (Q := fun _ w => Removed env w₀ [] w ∧ w.marker = w₀.journal.previousMarker ∧
    w.boot = w₀.journal.bootstrap.oldRaw) ?_ fun _ => ?_
  · by_cases hold : a.boot = w₀.journal.bootstrap.oldRaw
    · simp only [hold, ne_eq, not_true_eq_false, decide_false]
      exact meets_pure fun w hs => ⟨hs.1.1, hs.1.2, hs.2.symm⟩
    · simp only [hold, ne_eq, not_false_eq_true, decide_true]
      refine (replace_calm honward fun w hs => ?_).imp (fun _ hs => hs.1) fun _ _ hs => hs
      exact ⟨⟨hs.1.calm, hs.1.fixed, hs.1.marker, Or.inl rfl, hs.1.created, hs.1.mounts⟩, hs.2, rfl⟩
  · refine meets_bind (meets_get (Q := fun a w => (Removed env w₀ [] w ∧
      w.marker = w₀.journal.previousMarker ∧ w.boot = w₀.journal.bootstrap.oldRaw) ∧ a = w)
      fun _ hs => ⟨hs, rfl⟩) fun b => ?_
    exact meets_of (p := b.boot = w₀.journal.bootstrap.oldRaw)
      (fun hb => meets_ensure_of hb fun _ hs => hs.1) fun _ hs => hs.2 ▸ hs.1.2.2

theorem rollback_returns (prepared : Prepared env w₀) :
    Meets (fun w => Inv env w₀ w ∧ Calm env w) (rollback env) (fun _ => Restored w₀) E := by
  have honward : Onward env fun w => Inv env w₀ w ∧ Calm env w :=
    ⟨fun _ hs => hs.2, fun _ _ _ hs => ⟨Inv.steady _ _ _ hs.1, hs.2.next⟩⟩
  unfold rollback
  refine meets_bind (meets_get (Q := fun _ w => Inv env w₀ w ∧ Calm env w) fun _ hs => hs)
    fun first => ?_
  refine meets_bind (Q := fun _ w => Inv env w₀ w ∧ Calm env w) (meets_onlyIf (fun _ =>
    stopServices_meets (command_calm honward) (saveJournal_calm honward) ?_ ?_) fun _ hs => hs)
      fun _ => ?_
  · rintro w ⟨hs, hcalm⟩
    exact ⟨⟨rfl, ⟨hs.fixed.1, hs.fixed.2, hs.fixed.3, hs.fixed.4, hs.fixed.5⟩, hs.marker, hs.boot,
      hs.created, hs.mounts, hs.targets⟩, hcalm⟩
  · rintro w phase rpcStopped ⟨hs, hcalm⟩
    exact ⟨hs.marks, hcalm⟩
  refine meets_bind (meets_get (Q := fun a w => (Inv env w₀ w ∧ Calm env w) ∧ a = w)
    fun _ hs => ⟨hs, rfl⟩) fun a => ?_
  refine meets_of (p := a.journal.bootstrap = w₀.journal.bootstrap) (fun hbootstrap => ?_)
    fun _ hs => hs.2 ▸ hs.1.1.fixed.bootstrap
  simp only [hbootstrap, rollbackActions]
  -- the new mounts, the old mounts, the made nodes: each list from its end
  refine meets_bind (Q := fun _ => Removing env w₀ a.journal []) ?_ fun _ => ?_
  · refine (meets_forM (P := Removing env w₀ a.journal)
      (fun _ rest => removeMount_returns prepared rest) _).imp ?_ fun _ _ hs => hs
    rintro w ⟨⟨hs, hcalm⟩, rfl⟩
    exact ⟨hs, hcalm, rfl, rfl, (List.reverse_reverse _).symm⟩
  refine meets_bind (Q := fun _ => Restoring env w₀ a.journal.created []) ?_ fun _ => ?_
  · refine (meets_forM (P := Restoring env w₀ a.journal.created)
      (fun _ rest => restoreMount_returns prepared rest) _).imp ?_ fun _ _ hs => hs
    rintro w ⟨hs, hcalm, hcreated, hunmounted, hmounted⟩
    exact ⟨hs, hcalm, hcreated, hmounted, by rw [hunmounted, List.reverse_reverse]⟩
  refine meets_bind (Q := fun _ => Removed env w₀ []) ?_ fun _ => ?_
  · refine (meets_forM (P := Removed env w₀) (fun _ rest => removeCreated_returns prepared rest)
      _).imp ?_ fun _ _ hs => hs
    rintro w ⟨hs, hcalm, hcreated, hmounted, hunmounted⟩
    obtain ⟨base, hun, hbound⟩ := hs.mounts
    rw [hunmounted] at hun
    rw [hmounted] at hbound
    obtain rfl := run_nil.1 hun
    exact ⟨hcalm, hs.fixed, hs.marker, hs.boot, by
      rw [List.reverse_reverse, ← hcreated]
      exact hs.created, (run_nil.1 hbound).symm⟩
  refine meets_bind (Q := fun _ => Removed env w₀ []) (meets_modify ?_) fun _ => ?_
  · intro w hs
    exact ⟨hs.calm, ⟨hs.fixed.1, hs.fixed.2, hs.fixed.3, hs.fixed.4, hs.fixed.5⟩,
      hs.marker, hs.boot,
      hs.created, hs.mounts⟩
  refine meets_bind restoreMarker_returns fun _ => ?_
  refine meets_bind (restoreBootstrap_returns prepared) fun _ => ?_
  have hend : Onward env fun w => Removed env w₀ [] w ∧
      w.marker = w₀.journal.previousMarker ∧ w.boot = w₀.journal.bootstrap.oldRaw :=
    ⟨fun _ hs => hs.1.calm, fun _ _ _ hs => ⟨Removed.onward.next _ _ _ hs.1, hs.2⟩⟩
  refine meets_bind (startServices_meets (command_calm hend)) fun _ => ?_
  refine meets_bind (Q := fun _ w => Restored w₀ w ∧ Calm env w) (meets_modify ?_) fun _ => ?_
  · rintro w ⟨hs, hmarker, hboot⟩
    exact ⟨⟨hs.mounts, (run_nil.1 hs.created).symm, hmarker, hboot, rfl⟩, hs.calm⟩
  · refine (saveJournal_calm ⟨fun _ hs => hs.2, fun w argv saved hs => ⟨?_, hs.2.next⟩⟩).imp
      (fun _ hs => hs) fun _ _ hs => hs.1
    exact ⟨hs.1.mounts, hs.1.tree, hs.1.marker, hs.1.boot, hs.1.phase⟩

/-- Whatever the switch fails at, the mounts, what lies under them, the marker and the boot
descriptor are those from before, if no umount, bind or creation took effect and was reported as a
failure, and the calls of the rollback itself succeed. -/
theorem run_restores (prepared : Prepared env w₀) {e : Err} {u : World}
    (failed : exec (switchover env) w₀ = (.error e, u)) (plain : Plain env u.calls)
    (calm : Calm env u) :
    ∃ w, exec (run env) w₀ = (.error .ramSwitchFailed, w) ∧ Restored w₀ w := by
  have hinv : Inv env w₀ u := by
    have h := switchover_meets prepared w₀ rfl
    rw [failed] at h
    exact h plain
  have hback := rollback_returns (E := fun _ => False) prepared u ⟨hinv, calm⟩
  rcases hexec : exec (rollback env) u with ⟨e' | ⟨⟩, w⟩ <;> rw [hexec] at hback
  · exact hback.elim
  refine ⟨w, ?_, hback⟩
  have hrecover : exec (recover env) u = (.ok (), w) := by
    unfold recover
    rw [exec_get_bind, exec_attempt, if_pos hinv.quiesced, hexec]
  unfold run
  rw [exec_attempt, failed]
  exact exec_bind_of hrecover

end Backward

/-! A switch whose new mount cannot be made read-only. -/

def oldRow : Row where
  target := "/www/foxhole.html".toList
  source := "/tmp/foxhole-ram-stage-000000/root/www/foxhole.html".toList
  type := .file
  dev := ⟨0, 1⟩
  inode := 5
  sha256 := some (List.replicate 64 'a')
  role := "base".toList

def candidate : Text :=
  "/tmp/foxhole/ram-updates/candidates/candidate-".toList ++ List.replicate 32 '0'

def newRow : Row where
  target := "/www/cgi-bin/foxhole".toList
  source := candidate ++ "/root/www/cgi-bin/foxhole".toList
  type := .file
  dev := ⟨0, 2⟩
  inode := 6
  sha256 := some (List.replicate 64 'b')
  role := "base".toList

def sampleSources (path : Text) : Option Source :=
  if path = oldRow.source then some ⟨⟨.file, ⟨0, 1⟩, 5⟩, List.replicate 64 'a', true⟩
  else if path = newRow.source then some ⟨⟨.file, ⟨0, 2⟩, 6⟩, List.replicate 64 'b', true⟩
  else none

/-- The `n`-th call fails, and no other. -/
def failsAt (n : ℕ) (outcome : Outcome) : Env where
  sources := sampleSources
  outcome m _ := if m = n then outcome else .done
  journalValid _ := true
  journalPath := "/etc/foxhole/ram-update/switches/update-job-0.json".toList

/-- The call after the new bind takes effect and is reported as a failure. -/
def remountLate : Env := failsAt 19 .late

/-- The old mount is taken down, and that is reported as a failure. -/
def umountLate : Env := failsAt 11 .late

def sampleJournal : Journal where
  phase := .prepared
  unmounted := []
  mounted := []
  created := []
  quiesceStarted := false
  rpcStopped := false
  restarted := false
  previousMarker :=
    ⟨"1.0.0-r1".toList, List.replicate 64 'c', "/tmp/foxhole-ram-stage-000000".toList,
    List.replicate 64 'd', []⟩
  newMarker := ⟨"1.1.0-r1".toList, List.replicate 64 'e', candidate, List.replicate 64 'f', []⟩
  previousLedger := ⟨"/tmp/foxhole-ram-stage-000000".toList, List.replicate 64 'c', [oldRow]⟩
  newLedger := ⟨candidate, List.replicate 64 'e', [newRow]⟩
  bootstrap := ⟨"old".toList, "new".toList⟩

def sampleWorld : World where
  journal := sampleJournal
  saved := sampleJournal
  mounts := Function.update (fun _ => []) oldRow.target [⟨⟨.file, ⟨0, 1⟩, 5⟩, true⟩]
  tree := [("/".toList, .directory), ("/www".toList, .directory), (oldRow.target, .file)]
  marker := sampleJournal.previousMarker
  boot := "old".toList
  calls := []

def failedWorld (env : Env) : World := (exec (switchover env) sampleWorld).2

theorem sources_newRow : sampleSources newRow.source =
    some ⟨⟨.file, ⟨0, 2⟩, 6⟩, List.replicate 64 'b', true⟩ := by
  have hne : newRow.source ≠ oldRow.source := by
    unfold newRow oldRow candidate
    -- the literals as lists of characters, so that the check need not decode them
    iterate 3 rw [String.toList_ofList]
    decide
  rw [sampleSources, if_neg hne, if_pos rfl]

theorem base_valid {stage : Text} {row : Row} (htype : row.type = .file)
    (hrole : row.role = "base".toList)
    (hplain : 1 ≤ row.inode ∧ row.source.length ≤ 240 ∧ sourceShape.accepts row.source = true ∧
      noDots row.source)
    (hdigest : ∃ value ∈ row.sha256, sha value) (hpath : publicPath row.target)
    (hsource : row.source = stage ++ "/root".toList ++ row.target) : row.Valid stage := by
  obtain ⟨hinode, hlen, hshape, hdots⟩ := hplain
  unfold Row.Valid
  rw [if_pos htype, if_pos hrole]
  exact ⟨hinode, hlen, hshape, hdots, hdigest, hpath, hsource⟩

theorem oldRow_valid : oldRow.Valid "/tmp/foxhole-ram-stage-000000".toList := by
  refine base_valid rfl rfl ?_ ⟨_, rfl, by decide⟩ (Or.inl (List.mem_of_getElem? (i := 9) rfl)) ?_
  · unfold oldRow
    rw [String.toList_ofList]
    decide +kernel
  · unfold oldRow
    iterate 4 rw [String.toList_ofList]
    rfl

theorem newRow_valid : newRow.Valid candidate := by
  refine base_valid rfl rfl ?_ ⟨_, rfl, by decide⟩ (Or.inl (List.mem_of_getElem? (i := 8) rfl)) ?_
  · unfold newRow candidate
    iterate 2 rw [String.toList_ofList]
    decide +kernel
  · unfold newRow
    iterate 3 rw [String.toList_ofList]
    rw [List.append_assoc]
    rfl

/-- A ledger of one mount. -/
theorem ledger_valid {stage base : Text} {row : Row} {marker : Marker}
    (hstage : RamSwitch.stage stage) (hmarker : marker.stage = stage)
    (hbase : sha base ∧ marker.baseSha256 = base) (hrow : row.Valid stage) :
    Ledger.Valid ⟨stage, base, [row]⟩ marker where
  stageShape := hstage
  stage := hmarker.symm
  base := ⟨hbase.1, hbase.2.symm⟩
  length := by simp
  targets := List.nodup_singleton _
  rows := by
    intro other ho
    rwa [List.mem_singleton.1 ho]
  nested := by
    intro a ha b hb hne
    rw [List.mem_singleton.1 ha, List.mem_singleton.1 hb] at hne
    exact absurd rfl hne

theorem sample_prepared (n : ℕ) (outcome : Outcome) :
    Prepared (failsAt n outcome) sampleWorld where
  previousLedger := ledger_valid (by decide) rfl ⟨by decide, rfl⟩ oldRow_valid
  newLedger := ledger_valid (by decide) rfl ⟨by decide, rfl⟩ newRow_valid
  described := by
    intro row hrow
    rw [List.mem_singleton.1 hrow]
    exact ⟨⟨⟨.file, ⟨0, 2⟩, 6⟩, List.replicate 64 'b', true⟩, sources_newRow, by decide +kernel⟩
  unmounted := rfl
  mounted := rfl
  created := rfl
  marker := rfl
  boot := rfl
  bootstrap := rfl
  closed := by
    unfold Closed
    decide +kernel
  targets := by
    intro target m hm
    by_cases ht : target = oldRow.target
    · subst ht
      simp only [sampleWorld, Function.update_self, List.mem_singleton] at hm
      subst hm
      decide +kernel
    · simp [sampleWorld, Function.update_of_ne ht] at hm

theorem failsAt_calm {n : ℕ} {outcome : Outcome} {w : World} (h : n < w.calls.length) :
    Calm (failsAt n outcome) w := by
  intro m hm argv
  exact if_neg (by omega)

theorem failsAt_failed {n : ℕ} {outcome : Outcome} {e : Err}
    (h : (exec (switchover (failsAt n outcome)) sampleWorld).1 = .error e) :
    exec (switchover (failsAt n outcome)) sampleWorld =
      (.error e, failedWorld (failsAt n outcome)) := by
  rw [failedWorld, ← h]

theorem remountLate_fails :
    (exec (switchover remountLate) sampleWorld).1 = .error .ramSwitchValidationFailed ∧
      19 < (failedWorld remountLate).calls.length ∧
      Plain remountLate (failedWorld remountLate).calls := by
  unfold failedWorld remountLate failsAt sampleSources sampleWorld sampleJournal oldRow newRow
    candidate
  iterate 12 rw [String.toList_ofList]
  decide +kernel

/-- The old mount is back, and what was made for the new one is gone. -/
theorem sample_restored :
    ∃ w, exec (run remountLate) sampleWorld = (.error .ramSwitchFailed, w) ∧
      Restored sampleWorld w := by
  obtain ⟨hfailed, hcalls, hplain⟩ := remountLate_fails
  exact run_restores (sample_prepared 19 .late) (failsAt_failed hfailed) hplain
    (failsAt_calm hcalls)

theorem umountLate_fails :
    (exec (switchover umountLate) sampleWorld).1 = .error .ramSwitchValidationFailed ∧
      11 < (failedWorld umountLate).calls.length ∧
      (exec (run umountLate) sampleWorld).2.mounts oldRow.target = [] := by
  unfold failedWorld umountLate failsAt sampleSources sampleWorld sampleJournal oldRow newRow
    candidate
  iterate 12 rw [String.toList_ofList]
  decide +kernel

/-- A umount that takes effect and is reported as a failure is not taken back. -/
theorem not_restored : ¬ ∀ (env : Env) (w₀ u : World) (e : Err), Prepared env w₀ →
    exec (switchover env) w₀ = (.error e, u) → Calm env u →
    ∃ w, exec (run env) w₀ = (.error .ramSwitchFailed, w) ∧ Restored w₀ w := by
  intro h
  obtain ⟨hfailed, hcalls, hmounts⟩ := umountLate_fails
  obtain ⟨w, hw, hrestored⟩ := h umountLate sampleWorld _ .ramSwitchValidationFailed
    (sample_prepared 11 .late) (failsAt_failed hfailed) (failsAt_calm hcalls)
  rw [hw, hrestored.mounts] at hmounts
  cases hmounts

end Foxhole.RamSwitch
