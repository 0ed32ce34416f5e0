/-
# Where installing and removing stay inside

Installing a model stays under the directory of the models exactly if the model id and the
name of the file do, as paths. Removing a model deletes the directory that was recorded for it,
which may be the directory of the models itself: an install records where the model id leads.
-/

import HiveBear.Registry.Reached
import HiveBear.Registry.Remove

namespace HiveBear.Registry

open LabelledRun Paths

/-! ## Removing -/

/-- **Removing stays inside.** Everything that a removal of the model creates, overwrites or
deletes lies strictly under the directory of the models. -/
def RemoveInside (registry : ModelRegistry) (modelId : String) (store : Store) : Prop :=
  ∀ events last, Run (RemoveStep registry modelId) (store, .finding) events last →
    ∀ event ∈ events, ∀ place ∈ event.touched, Under registry.root place

/-- A directory that is recorded for the model lies strictly under the directory of the models.
The index is saved unless what is recorded is a plain file. -/
def ModelRegistry.RemoveContained (registry : ModelRegistry) (modelId : String) (store : Store) :
    Prop :=
  ∀ metadata, store.index.find modelId = some metadata →
    (∀ installed, metadata.installed = some installed → store.isDir registry.cwd installed.path →
      Under registry.root (leadsTo registry.cwd installed.path)) ∧
    ((∀ installed, metadata.installed = some installed →
        store.pathExists registry.cwd installed.path → store.isDir registry.cwd installed.path) →
      registry.IndexInside)

section

variable {registry : ModelRegistry} {modelId : String}

/-- What a removal has found so far, and where it comes to saving the index, that its file lies
inside. -/
def RemoveFits (registry : ModelRegistry) (modelId : String) (before : Store)
    (state : Store × RemovePhase) : Prop :=
  Removes modelId before state ∧ ∀ freedBytes, state.2 = .saving freedBytes → registry.IndexInside

/-- Every step of a removal stays inside. -/
theorem removeFits_removeStep {before : Store}
    (hcontained : registry.RemoveContained modelId before) {state next : Store × RemovePhase}
    {event : InstallEvent} (h : RemoveFits registry modelId before state)
    (step : RemoveStep registry modelId state event next) :
    RemoveFits registry modelId before next ∧
      ∀ place ∈ event.touched, Under registry.root place := by
  have hremoves := removes_removeStep h.1 step
  cases step with
  | notFound | found | notDir => exact ⟨⟨hremoves, nofun⟩, nofun⟩
  | notInstalled known absent =>
      obtain rfl : _ = before := h.1
      refine ⟨⟨hremoves, fun _ _ => (hcontained _ known).2 ?_⟩, nofun⟩
      intro installed hinstalled
      rw [absent] at hinstalled
      cases hinstalled
  | gone absent =>
      obtain ⟨rfl, metadata, known, recorded⟩ := h.1
      refine ⟨⟨hremoves, fun _ _ => (hcontained _ known).2 ?_⟩, nofun⟩
      intro installed hinstalled hexists
      rw [recorded] at hinstalled
      cases hinstalled
      exact absurd hexists absent
  | delete there =>
      obtain ⟨rfl, metadata, known, recorded⟩ := h.1
      refine ⟨⟨hremoves, fun _ _ => (hcontained _ known).2 ?_⟩, ?_⟩
      · intro installed hinstalled hexists
        rw [recorded] at hinstalled
        cases hinstalled
        exact there
      · intro place hplace
        exact ((hcontained _ known).1 _ recorded there).trans (Store.prefix_of_mem_tree hplace)
  | deleteFails there before message =>
      obtain ⟨rfl, metadata, known, recorded⟩ := h.1
      refine ⟨⟨hremoves, nofun⟩, ?_⟩
      intro place hplace
      exact ((hcontained _ known).1 _ recorded there).trans
        (Store.prefix_of_mem_tree (before hplace))
  | save | saveFails => exact ⟨⟨hremoves, nofun⟩, h.2 _ rfl⟩

/-- **A removal stays inside** exactly if the directory that is recorded lies there, and, where
the index is saved, its file does. -/
theorem removeInside_iff (registry : ModelRegistry) (modelId : String) (store : Store) :
    RemoveInside registry modelId store ↔ registry.RemoveContained modelId store := by
  constructor
  · intro hinside metadata known
    have hdir (installed : InstalledInfo) (recorded : metadata.installed = some installed)
        (there : store.isDir registry.cwd installed.path) :
        Under registry.root (leadsTo registry.cwd installed.path) := by
      have found : Run (RemoveStep registry modelId) (store, .finding) _ _ :=
        Run.single (.found known recorded)
      exact hinside _ _ (found.snoc (.delete there)) _
        (List.mem_append_right _ (List.mem_singleton_self _)) _ (Store.mem_tree_self there.2.1)
    refine ⟨hdir, ?_⟩
    intro hsaves place hplace
    have hsaved {events : List InstallEvent} {last : Store} {freedBytes : ℕ}
        (run : Run (RemoveStep registry modelId) (store, .finding) events
          (last, .saving freedBytes)) : Under registry.root place :=
      hinside _ _ (run.snoc .save) _ (List.mem_append_right _ (List.mem_singleton_self _)) _ hplace
    cases hinstalled : metadata.installed with
    | none => exact hsaved (Run.single (.notInstalled known hinstalled))
    | some installed =>
        have found : Run (RemoveStep registry modelId) (store, .finding) _ _ :=
          Run.single (.found known hinstalled)
        by_cases hexists : store.pathExists registry.cwd installed.path
        · exact hsaved (found.snoc (.delete (hsaves installed hinstalled hexists)))
        · exact hsaved (found.snoc (.gone hexists))
  · intro hcontained events last run
    exact (@Run.always _ _ _ (RemoveFits registry modelId store)
      (fun event => ∀ place ∈ event.touched, Under registry.root place)
      (removeFits_removeStep hcontained) _ _ _ run ⟨rfl, nofun⟩).2

end

/-! ## What an install records -/

/-- The index knows no other directory of the model than its own. -/
def Recorded (registry : ModelRegistry) (modelId : String) (world : World) : Prop :=
  ∀ installed, world.index modelId = some installed → installed.path = registry.modelDir modelId

section

variable {registry : ModelRegistry} {call : InstallCall} {world world' : World}
  {phase phase' : InstallPhase} {event : InstallEvent}

theorem recorded_installStep (h : Recorded registry call.modelId world)
    (step : InstallStep registry call (world, phase) event (world', phase')) :
    Recorded registry call.modelId world' := by
  have hnew (job : Job) : Recorded registry call.modelId
      (world.setInstalled call.modelId (registry.installedInfo call world job)) := by
    intro installed hinstalled
    have hinfo : registry.installedInfo call world job = installed := by
      simpa [World.setInstalled] using hinstalled
    rw [← hinfo]
    rfl
  cases step with
  | cancel key =>
      rw [World.cancelDownload]
      split <;> exact h
  | adopt | notAdopted | record | notRecorded => exact hnew _
  | resume step | download step | fetch step =>
      rw [Recorded, Job.index_transferStep _ step]
      exact h
  | _ => exact h

/-- **What an install records** for its model is the directory that the model id is joined
to. -/
theorem recorded_of_run (h : Recorded registry call.modelId world) {events : List InstallEvent}
    {last : World × InstallPhase}
    (run : Run (InstallStep registry call) (world, phase) events last) :
    Recorded registry call.modelId last.1 :=
  @Run.invariant _ _ _ (fun state : World × InstallPhase => Recorded registry call.modelId state.1)
    recorded_installStep _ _ _ run h

end

/-! ## The result -/

/-- **Where installing and removing stay inside.** Installs of a model with a file of some name
all stay under the directory of the models exactly if the model id and the name do, as paths.
A removal does exactly if the directory that is recorded for the model lies there; and an
install records the directory that the model id leads to. -/
theorem inside_iff (registry : ModelRegistry) (modelId filename : String) :
    (InstallInside registry modelId filename ↔ registry.Contained modelId filename) ∧
      (∀ store, RemoveInside registry modelId store ↔ registry.RemoveContained modelId store) ∧
      ∀ call world events last, call.modelId = modelId → Recorded registry modelId world →
        Run (InstallStep registry call) (world, .checking) events last →
          Recorded registry modelId last.1 := by
  refine ⟨⟨contained_of_installInside, ?_⟩, removeInside_iff registry modelId, ?_⟩
  · rintro hcontained events ⟨call, world, last, rfl, hready, run⟩
    exact under_of_run hcontained hready run
  · rintro call world events last rfl hrecorded run
    exact recorded_of_run hrecorded run

/-- What is recorded for a model that is named by a dot. -/
def dotInstalled : InstalledInfo := ⟨plainRegistry.modelDir ".", 0, none, "m.gguf"⟩

/-- The directory of the models, and that model in the index. -/
def dotStore : Store := ⟨[⟨".", some dotInstalled⟩], [[], ["models".toList]], []⟩

/-- An install of a model may create a directory beside that of the models, and a removal may
delete that of the models itself. -/
theorem leaves_modelsDir :
    (∃ events, InstallRun plainRegistry "../evil" "m.gguf" events ∧
      ∃ event ∈ events, ["evil".toList] ∈ event.touched ∧
        ¬ Under plainRegistry.root ["evil".toList]) ∧
    ∃ events last, Run (RemoveStep plainRegistry ".") (dotStore, .finding) events last ∧
      ∃ event ∈ events, plainRegistry.root ∈ event.touched ∧
        ¬ Under plainRegistry.root plainRegistry.root := by
  constructor
  · obtain ⟨events, prepared, hcreated⟩ :=
      exists_prepared plainRegistry "../evil" "m.gguf" plainRegistry.root.inits
    obtain ⟨event, hevent, hplace⟩ := hcreated ["evil".toList] (by decide)
    refine ⟨events, ⟨_, _, _, rfl, ?_, prepared⟩, event, hevent, hplace, by decide⟩
    exact fun place habove => (List.mem_inits _ _).mpr habove
  · have found : Run (RemoveStep plainRegistry ".") (dotStore, .finding) _ _ :=
      Run.single (.found rfl rfl)
    have there : dotStore.isDir plainRegistry.cwd dotInstalled.path :=
      ⟨by decide, by decide, by decide⟩
    exact ⟨_, _, found.snoc (.delete there), _,
      List.mem_append_right _ (List.mem_singleton_self _), by decide, by decide⟩

end HiveBear.Registry
