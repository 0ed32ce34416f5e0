/-
# Resolving a model name to a loaded model

A request to the API server names a model. If its handle is in the map of loaded models, that
handle is used; otherwise the model is loaded and its handle put there. The check holds the
lock of the map only while it looks, so two requests for one name can both find it missing.
Then both load the model, the second handle takes the place of the first, and nothing can
unload the first any more.

If no request finds its model missing while another request for that name is between its
check and its insertion, every model is loaded at most once.
-/

import HiveBear.Inference.Orchestrator
import HiveBear.Library.Run

namespace HiveBear.Cli

open Inference LabelledRun

/-! ## A request -/

/-- The state that the requests share. -/
structure AppState where
  orchestrator : Inference.Orchestrator
  models : String → Option ModelHandle
  /-- There is a registry for loading on demand. -/
  hasRegistry : Bool

/-- How far a request is. -/
inductive ResolvePhase
  | checking
  | loadingCloud
  /-- The registry is asked where the model is. -/
  | resolving
  | installing
  | loading (modelPath : String)
  | inserting (handle : ModelHandle)
  | returned (result : Except String ModelHandle)

/-- What a request is answered: by the registry, and by the engines. -/
structure ResolveAnswers where
  resolve : Except String String
  install : Except String String
  surroundings : LoadSurroundings

/-- A name like `openai/gpt-4o`, with one of the providers before the slash. -/
def isCloudModel (providers : List String) (modelName : String) : Bool :=
  modelName.toList.contains '/' &&
    providers.contains (String.ofList (modelName.toList.takeWhile (· ≠ '/')))

/-- The configuration a model is loaded with on demand. -/
def onDemandConfig : LoadConfig := ⟨4096, ⟨none, true⟩⟩

namespace AppState

variable (providers : List String) (modelName : String) (answers : ResolveAnswers)
  (state : AppState)

/-- The state with an orchestrator that has loaded something. -/
def withOrchestrator (orchestrator : Inference.Orchestrator) : AppState :=
  { state with orchestrator := orchestrator }

/-- The next step of a request: it takes a lock, or waits for one answer. -/
def resolveModel : ResolvePhase → AppState × ResolvePhase
  | .checking =>
      match state.models modelName with
      | some handle => (state, .returned (.ok handle))
      | none =>
          if isCloudModel providers modelName then (state, .loadingCloud)
          else if state.hasRegistry then (state, .resolving)
          else
            (state, .returned (.error (s!"Model '{modelName}' is not loaded and no registry is " ++
              "available for on-demand loading")))
  | .loadingCloud =>
      let (orchestrator, loaded) :=
        state.orchestrator.loadCloud answers.surroundings modelName onDemandConfig
      match loaded with
      | .ok handle => (state.withOrchestrator orchestrator, .inserting handle)
      | .error e =>
          (state.withOrchestrator orchestrator,
            .returned (.error s!"Cloud model '{modelName}': {Orchestrator.describe e}"))
  | .resolving =>
      match answers.resolve with
      | .ok path => (state, .loading path)
      | .error _ => (state, .installing)
  | .installing =>
      match answers.install with
      | .ok path => (state, .loading path)
      | .error e =>
          (state, .returned (.error s!"Model '{modelName}' not found and download failed: {e}"))
  | .loading path =>
      let (orchestrator, loaded) :=
        state.orchestrator.load answers.surroundings path onDemandConfig
      match loaded with
      | .ok handle => (state.withOrchestrator orchestrator, .inserting handle)
      | .error e =>
          (state.withOrchestrator orchestrator,
            .returned (.error s!"Failed to load model '{modelName}': {Orchestrator.describe e}"))
  | .inserting handle =>
      ({ state with models := Function.update state.models modelName (some handle) },
        .returned (.ok handle))
  | .returned result => (state, .returned result)

end AppState

namespace ResolvePhase

/-- The request has found its model missing, and has neither inserted a handle nor failed. -/
def AtWork : ResolvePhase → Prop
  | .checking => False
  | .returned _ => False
  | _ => True

/-- The handle that a step into this phase has loaded. -/
def opened : ResolvePhase → Option ModelHandle
  | .inserting handle => some handle
  | _ => none

theorem eq_inserting_of_opened {phase : ResolvePhase} {handle : ModelHandle}
    (h : phase.opened = some handle) : phase = .inserting handle := by
  cases phase with
  | inserting => exact congrArg ResolvePhase.inserting (Option.some.inj h)
  | _ => cases h

end ResolvePhase

/-- What a step of a request may do. -/
inductive ResolveMove (modelName : String) (state : AppState) :
    ResolvePhase → AppState × ResolvePhase → Prop
  | found {handle : ModelHandle} (known : state.models modelName = some handle) :
      ResolveMove modelName state .checking (state, .returned (.ok handle))
  | enter {next : ResolvePhase} (missing : state.models modelName = none) (atWork : next.AtWork)
      (silent : next.opened = none) : ResolveMove modelName state .checking (state, next)
  | proceed {phase next : ResolvePhase} (atWork : phase.AtWork) (without : phase.opened = none)
      (silent : next.opened = none) (still : next.AtWork) :
      ResolveMove modelName state phase (state, next)
  /-- A model is loaded, which it is not yet. -/
  | opens {phase : ResolvePhase} {handle : ModelHandle} {after : AppState}
      (atWork : phase.AtWork) (without : phase.opened = none)
      (models : after.models = state.models) :
      ResolveMove modelName state phase (after, .inserting handle)
  | fails {phase : ResolvePhase} {after : AppState} (without : phase.opened = none)
      (models : after.models = state.models) (message : String) :
      ResolveMove modelName state phase (after, .returned (.error message))
  | insert {handle : ModelHandle} {after : AppState}
      (models : after.models = Function.update state.models modelName (some handle)) :
      ResolveMove modelName state (.inserting handle) (after, .returned (.ok handle))
  | stays (result : Except String ModelHandle) :
      ResolveMove modelName state (.returned result) (state, .returned result)

theorem resolveMove (providers : List String) (modelName : String) (answers : ResolveAnswers)
    (state : AppState) (phase : ResolvePhase) :
    ResolveMove modelName state phase (state.resolveModel providers modelName answers phase) := by
  cases phase with
  | checking =>
      rw [AppState.resolveModel]
      split
      · exact .found ‹_›
      · split_ifs
        · exact .enter ‹_› trivial rfl
        · exact .enter ‹_› trivial rfl
        · exact .fails rfl rfl _
  | loadingCloud =>
      simp only [AppState.resolveModel]
      split
      · exact .opens trivial rfl rfl
      · apply ResolveMove.fails <;> rfl
  | resolving =>
      rw [AppState.resolveModel]
      split
      · exact .proceed trivial rfl rfl trivial
      · exact .proceed trivial rfl rfl trivial
  | installing =>
      rw [AppState.resolveModel]
      split
      · exact .proceed trivial rfl rfl trivial
      · exact .fails rfl rfl _
  | loading path =>
      simp only [AppState.resolveModel]
      split
      · exact .opens trivial rfl rfl
      · apply ResolveMove.fails <;> rfl
  | inserting handle => exact .insert rfl
  | returned result => exact .stays result

/-! ## Concurrent requests -/

/-- The counters that handles are numbered by: MLX has one of its own. -/
structure HandleCounters where
  handleCounter : ℕ
  mlxCounter : ℕ

namespace HandleCounters

def next (counters : HandleCounters) : InferenceEngine → ℕ
  | .mlx => counters.mlxCounter
  | _ => counters.handleCounter

/-- The counters have gone on, and the handle has been numbered on the way. -/
structure Numbers (before after : HandleCounters) (opened : Option ModelHandle) : Prop where
  grows : ∀ engine, before.next engine ≤ after.next engine
  new : ∀ {handle}, opened = some handle →
    before.next handle.engine ≤ handle.id ∧ handle.id < after.next handle.engine

end HandleCounters

/-- The server and the requests it serves. -/
structure ApiSystem (C : Type*) where
  state : AppState
  phases : C → ResolvePhase
  counters : HandleCounters

/-- A request takes a step from a phase, and loads a model if it does so there. -/
structure ResolveEvent (C : Type*) where
  call : C
  phase : ResolvePhase
  opened : Option ModelHandle

variable {C : Type*} [DecidableEq C] (providers : List String) (modelName : C → String)

/-- The steps of a server whose requests name these models. -/
inductive ResolveStep : ApiSystem C → ResolveEvent C → ApiSystem C → Prop
  | work (system : ApiSystem C) (call : C) (answers : ResolveAnswers) {after : AppState}
      {next : ResolvePhase} {counters : HandleCounters}
      (step : system.state.resolveModel providers (modelName call) answers (system.phases call) =
        (after, next))
      (numbers : system.counters.Numbers counters next.opened) :
      ResolveStep system ⟨call, system.phases call, next.opened⟩
        ⟨after, Function.update system.phases call next, counters⟩

/-- No request finds its model missing while another one for that name is at work. -/
def FindsAlone (system : ApiSystem C) (event : ResolveEvent C) : Prop :=
  match event.phase with
  | .checking =>
      system.state.models (modelName event.call) ≠ none ∨
        ∀ other, modelName other = modelName event.call → ¬ (system.phases other).AtWork
  | _ => True

/-- The names whose models have been loaded, as often as they have been. -/
def loadedNames (events : List (ResolveEvent C)) : List String :=
  (events.filter fun event => event.opened.isSome).map fun event => modelName event.call

/-- One loaded copy of each model: every handle that has been loaded is in the map, or in the
hands of the request that is about to put it there; no name has been loaded twice; and what a
request has returned is what later requests for that name are given. -/
structure OneCopy (events : List (ResolveEvent C)) (system : ApiSystem C) : Prop where
  reachable : ∀ event ∈ events, ∀ handle, event.opened = some handle →
    system.state.models (modelName event.call) = some handle ∨
      system.phases event.call = .inserting handle
  single : (loadedNames modelName events).Nodup
  shared : ∀ {call handle}, system.phases call = .returned (.ok handle) →
    system.state.models (modelName call) = some handle

/-- What keeps it that way: requests at work are alone with their names, which are missing. -/
structure Solitary (events : List (ResolveEvent C)) (system : ApiSystem C) : Prop
    extends OneCopy modelName events system where
  alone : ∀ {call other}, (system.phases call).AtWork → (system.phases other).AtWork →
    modelName call = modelName other → call = other
  missing : ∀ {call}, (system.phases call).AtWork → system.state.models (modelName call) = none

variable {providers} {modelName} {events : List (ResolveEvent C)} {system : ApiSystem C}

omit [DecidableEq C] in
theorem loadedNames_append (event : ResolveEvent C) :
    loadedNames modelName (events ++ [event]) =
      loadedNames modelName events ++
        if event.opened.isSome then [modelName event.call] else [] := by
  rw [loadedNames, List.filter_append, List.map_append, ← loadedNames]
  congr 1
  cases hopened : event.opened.isSome <;> simp [hopened]

/-- The phase of a request behind a step of one of them. -/
theorem phase_cases (phases : C → ResolvePhase) (call : C) (next : ResolvePhase) (other : C) :
    other = call ∧ Function.update phases call next other = next ∨
      other ≠ call ∧ Function.update phases call next other = phases other := by
  by_cases hsame : other = call
  · subst hsame
    exact Or.inl ⟨rfl, Function.update_self ..⟩
  · exact Or.inr ⟨hsame, Function.update_of_ne hsame ..⟩

/-- A request that is at work behind a step was so before, if the step is not its own. -/
theorem atWork_cases {phases : C → ResolvePhase} {call other : C} {next : ResolvePhase}
    (h : (Function.update phases call next other).AtWork) :
    other = call ∧ next.AtWork ∨ (phases other).AtWork := by
  rcases phase_cases phases call next other with ⟨hsame, hself⟩ | ⟨-, hother⟩
  · exact Or.inl ⟨hsame, hself ▸ h⟩
  · exact Or.inr (hother ▸ h)

/-- A step that leaves the map alone keeps it that way, if its request comes to be at work only
with a name of its own that is missing. -/
theorem solitary_of_models (h : Solitary modelName events system) {call : C}
    {phase next : ResolvePhase} {after : AppState} {counters : HandleCounters}
    (models : after.models = system.state.models) (without : (system.phases call).opened = none)
    (hfresh : next.opened ≠ none → modelName call ∉ loadedNames modelName events)
    (halone : next.AtWork → ∀ other, (system.phases other).AtWork →
      modelName other = modelName call → other = call)
    (hmissing : next.AtWork → system.state.models (modelName call) = none)
    (hshared : ∀ {handle}, next = .returned (.ok handle) →
      system.state.models (modelName call) = some handle) :
    Solitary modelName (events ++ [⟨call, phase, next.opened⟩])
      ⟨after, Function.update system.phases call next, counters⟩ where
  reachable := by
    intro event hevent handle hopened
    rw [models]
    rcases List.mem_append.mp hevent with hearly | hnow
    · apply (h.reachable event hearly handle hopened).imp_right
      intro hheld
      rcases phase_cases system.phases call next event.call with ⟨hself, -⟩ | ⟨-, hother⟩
      · rw [← hself, hheld] at without
        cases without
      · exact hother.trans hheld
    · rw [List.mem_singleton.mp hnow] at hopened ⊢
      apply Or.inr
      dsimp only
      rw [Function.update_self]
      exact ResolvePhase.eq_inserting_of_opened hopened
  single := by
    rw [loadedNames_append]
    cases hopened : next.opened with
    | none => simpa [hopened] using h.single
    | some handle =>
        have hnew : modelName call ∉ loadedNames modelName events :=
          hfresh (Option.ne_none_iff_exists'.mpr ⟨handle, hopened⟩)
        apply List.nodup_append.mpr
        refine ⟨h.single, by simp, ?_⟩
        rintro name hname other hother rfl
        exact hnew (List.mem_singleton.mp hother ▸ hname)
  shared := by
    intro other handle hreturned
    rw [models]
    rcases phase_cases system.phases call next other with ⟨rfl, hself⟩ | ⟨-, hother⟩
    · exact hshared (hself.symm.trans hreturned)
    · exact h.shared (hother.symm.trans hreturned)
  alone := by
    intro first second hfirst hsecond hname
    rcases atWork_cases hfirst with ⟨rfl, hnext⟩ | hbefore <;>
      rcases atWork_cases hsecond with ⟨hsame, hnext'⟩ | hbefore'
    · exact hsame.symm
    · exact (halone hnext second hbefore' hname.symm).symm
    · subst hsame
      exact halone hnext' first hbefore hname
    · exact h.alone hbefore hbefore' hname
  missing := by
    intro other hwork
    rw [models]
    rcases atWork_cases hwork with ⟨rfl, hnext⟩ | hwork
    · exact hmissing hnext
    · exact h.missing hwork

omit [DecidableEq C] in
/-- A name whose request is at work, and has not loaded its model, has not been loaded. -/
theorem not_loaded_of_atWork (h : Solitary modelName events system) {call : C}
    (atWork : (system.phases call).AtWork) (without : (system.phases call).opened = none) :
    modelName call ∉ loadedNames modelName events := by
  intro hloaded
  obtain ⟨event, hevent, hname⟩ := List.mem_map.mp hloaded
  obtain ⟨hevent, hopened⟩ := List.mem_filter.mp hevent
  obtain ⟨handle, hopened⟩ := Option.isSome_iff_exists.mp hopened
  rcases h.reachable event hevent handle hopened with hthere | hheld
  · rw [hname, h.missing atWork] at hthere
    cases hthere
  · have hevent : (system.phases event.call).AtWork := hheld ▸ trivial
    rw [← h.alone hevent atWork hname, hheld] at without
    cases without

/-- An insertion keeps it that way. -/
theorem solitary_insert (h : Solitary modelName events system) {call : C} {handle : ModelHandle}
    {phase : ResolvePhase} {after : AppState} {counters : HandleCounters}
    (hphase : system.phases call = .inserting handle)
    (models : after.models = Function.update system.state.models (modelName call) (some handle)) :
    Solitary modelName (events ++ [⟨call, phase, none⟩])
      ⟨after, Function.update system.phases call (.returned (.ok handle)), counters⟩ := by
  have hwork : (system.phases call).AtWork := hphase ▸ trivial
  have hmissing : system.state.models (modelName call) = none := h.missing hwork
  have hmodels : ∀ {other handle'}, system.state.models (modelName other) = some handle' →
      after.models (modelName other) = some handle' := by
    intro other handle' hthere
    have hname : modelName other ≠ modelName call := by
      intro hname
      rw [hname, hmissing] at hthere
      cases hthere
    rw [models, Function.update_of_ne hname, hthere]
  have hinserted : after.models (modelName call) = some handle := by
    rw [models, Function.update_self]
  have hbefore : ∀ {other}, (Function.update system.phases call (.returned (.ok handle))
      other).AtWork → other ≠ call ∧ (system.phases other).AtWork := by
    intro other hother
    rcases phase_cases system.phases call (.returned (.ok handle)) other with
      ⟨-, hself⟩ | ⟨hne, hsame⟩
    · rw [hself] at hother
      exact hother.elim
    · exact ⟨hne, hsame ▸ hother⟩
  constructor
  · constructor
    · intro event hevent handle' hopened
      rcases List.mem_append.mp hevent with hearly | hnow
      · rcases h.reachable event hearly handle' hopened with hthere | hheld
        · exact Or.inl (hmodels hthere)
        · rcases phase_cases system.phases call (.returned (.ok handle)) event.call with
            ⟨hself, -⟩ | ⟨-, hother⟩
          · rw [hself, hphase] at hheld
            cases hheld
            exact Or.inl (hself ▸ hinserted)
          · exact Or.inr (hother.trans hheld)
      · rw [List.mem_singleton.mp hnow] at hopened
        cases hopened
    · rw [loadedNames_append]
      simpa using h.single
    · intro other handle' hreturned
      rcases phase_cases system.phases call (.returned (.ok handle)) other with
        ⟨rfl, hself⟩ | ⟨-, hother⟩
      · cases hself.symm.trans hreturned
        exact hinserted
      · exact hmodels (h.shared (hother.symm.trans hreturned))
  · intro first second hfirst hsecond hname
    exact h.alone (hbefore hfirst).2 (hbefore hsecond).2 hname
  · intro other hother
    obtain ⟨hne, hother⟩ := hbefore hother
    have hname : modelName other ≠ modelName call := fun hname =>
      hne (h.alone hother hwork hname)
    dsimp only
    rw [models, Function.update_of_ne hname]
    exact h.missing hother

/-- Every step at which a request finds its model missing alone keeps it that way. -/
theorem solitary_step (h : Solitary modelName events system) {event : ResolveEvent C}
    {later : ApiSystem C}
    (step : Guarded (FindsAlone modelName) (ResolveStep providers modelName) system event later) :
    Solitary modelName (events ++ [event]) later := by
  obtain ⟨finds, step⟩ := step
  cases step with
  | @work call answers after next counters step numbers =>
      have move := resolveMove providers (modelName call) answers system.state (system.phases call)
      rw [step] at move
      have hwork : (system.phases call).AtWork → ∀ other, (system.phases other).AtWork →
          modelName other = modelName call → other = call := fun hcall other hother hname =>
        h.alone hother hcall hname
      generalize hphase : system.phases call = phase at move finds hwork ⊢
      cases move with
      | found known =>
          apply solitary_of_models h rfl (hphase ▸ rfl)
          · exact fun hopened => absurd rfl hopened
          · exact fun hnext => hnext.elim
          · exact fun hnext => hnext.elim
          · rintro handle ⟨⟩
            exact known
      | enter missing atWork silent =>
          apply solitary_of_models h rfl (hphase ▸ rfl)
          · exact fun hopened => absurd silent hopened
          · intro _ other hother hname
            exact absurd hother (finds.resolve_left (fun hthere => hthere missing) other hname)
          · exact fun _ => missing
          · rintro handle rfl
            exact atWork.elim
      | proceed atWork without silent still =>
          apply solitary_of_models h rfl (hphase ▸ without)
          · exact fun hopened => absurd silent hopened
          · exact fun _ => hwork atWork
          · exact fun _ => h.missing (hphase ▸ atWork)
          · rintro handle rfl
            exact still.elim
      | opens atWork without models =>
          have hcall : (system.phases call).AtWork := hphase ▸ atWork
          apply solitary_of_models h models (hphase ▸ without)
          · exact fun _ => not_loaded_of_atWork h hcall (hphase ▸ without)
          · exact fun _ => hwork atWork
          · exact fun _ => h.missing hcall
          · exact fun hnext => nomatch hnext
      | fails without models message =>
          apply solitary_of_models h models (hphase ▸ without)
          · exact fun hopened => absurd rfl hopened
          · exact fun hnext => hnext.elim
          · exact fun hnext => hnext.elim
          · exact fun hnext => nomatch hnext
      | insert models => exact solitary_insert h hphase models
      | stays result =>
          apply solitary_of_models h rfl (hphase ▸ rfl)
          · exact fun hopened => absurd rfl hopened
          · exact fun hnext => hnext.elim
          · exact fun hnext => hnext.elim
          · intro handle hreturned
            exact h.shared (hphase.trans hreturned)

/-- **One loaded copy per model.** In every run in which requests find their models missing
alone, every handle that has been loaded is in the map or about to be, no name has been loaded
twice, and all requests for a name have been given the handle that is there. -/
theorem one_copy_per_model {start later : ApiSystem C} {events : List (ResolveEvent C)}
    (hstart : ∀ call, start.phases call = .checking)
    (run : Run (Guarded (FindsAlone modelName) (ResolveStep providers modelName)) start events
      later) :
    OneCopy modelName events later := by
  have hinitial : Solitary modelName [] start := by
    constructor
    · constructor
      · exact fun _ hevent => nomatch hevent
      · exact List.nodup_nil
      · intro call handle hreturned
        rw [hstart] at hreturned
        cases hreturned
    · intro call other hwork
      rw [hstart] at hwork
      exact hwork.elim
    · intro call hwork
      rw [hstart] at hwork
      exact hwork.elim
  have hsolitary : Solitary modelName events later :=
    @Run.history _ _ _ (Solitary modelName) (fun hs step => solitary_step hs step) _ _ _ run
      hinitial
  exact hsolitary.toOneCopy

omit [DecidableEq C] in
theorem opened_append (event : ResolveEvent C) :
    (events ++ [event]).filterMap ResolveEvent.opened =
      events.filterMap ResolveEvent.opened ++ event.opened.toList := by
  rw [List.filterMap_append]
  cases hopened : event.opened <;> simp [hopened]

/-- Handles that have been loaded are different from each other. -/
theorem opened_nodup {start later : ApiSystem C} {events : List (ResolveEvent C)}
    (run : Run (ResolveStep providers modelName) start events later) :
    (events.filterMap ResolveEvent.opened).Nodup := by
  have hnumbered : (events.filterMap ResolveEvent.opened).Nodup ∧
      ∀ handle ∈ events.filterMap ResolveEvent.opened,
        handle.id < later.counters.next handle.engine := by
    induction run with
    | nil => simp
    | @snoc system later events event run last ih =>
        obtain ⟨hnodup, hbelow⟩ := ih
        cases last with
        | @work call answers after next counters step numbers =>
            have hstill : ∀ handle ∈ events.filterMap ResolveEvent.opened,
                handle.id < counters.next handle.engine := fun handle hhandle =>
              Nat.lt_of_lt_of_le (hbelow handle hhandle) (numbers.grows _)
            rw [opened_append]
            dsimp only
            cases hopened : next.opened with
            | none =>
                rw [Option.toList_none, List.append_nil]
                exact ⟨hnodup, hstill⟩
            | some handle =>
                obtain ⟨hle, hlt⟩ := numbers.new hopened
                have hnew : handle ∉ events.filterMap ResolveEvent.opened := fun hmem =>
                  absurd (hbelow handle hmem) (Nat.not_lt.mpr hle)
                constructor
                · apply List.nodup_append.mpr
                  refine ⟨hnodup, by simp, ?_⟩
                  rintro other hother again hagain rfl
                  exact hnew (List.mem_singleton.mp hagain ▸ hother)
                · intro other hother
                  rcases List.mem_append.mp hother with hearly | hnow
                  · exact hstill other hearly
                  · exact List.mem_singleton.mp hnow ▸ hlt
  exact hnumbered.1

/-! ## Overlapping requests -/

/-- The state behind a step of a request. -/
def ApiSystem.advance (providers : List String) (modelName : C → String) (system : ApiSystem C)
    (call : C) (answers : ResolveAnswers) (counters : HandleCounters) : ApiSystem C :=
  let result :=
    system.state.resolveModel providers (modelName call) answers (system.phases call)
  ⟨result.1, Function.update system.phases call result.2, counters⟩

/-- What the state behind a step says of the step. -/
def ApiSystem.event (later system : ApiSystem C) (call : C) : ResolveEvent C :=
  ⟨call, system.phases call, (later.phases call).opened⟩

theorem advance_step (system : ApiSystem C) (call : C) (answers : ResolveAnswers)
    {counters : HandleCounters}
    (numbers : system.counters.Numbers counters (system.state.resolveModel providers
      (modelName call) answers (system.phases call)).2.opened) :
    ResolveStep providers modelName system
      (ApiSystem.event (system.advance providers modelName call answers counters) system call)
      (system.advance providers modelName call answers counters) := by
  rw [ApiSystem.event, ApiSystem.advance]
  dsimp only
  rw [Function.update_self]
  exact .work system call answers rfl numbers


/-- An engine that loads every model, under the next id. -/
def loadsAs (id : ℕ) : LoadSurroundings where
  registry := [⟨.candle, true, false, [.gguf], fun path _ => .ok ⟨id, path, .candle⟩⟩]
  detectFormat _ := .ok .gguf
  modelSize _ := 0
  calculateOffload _ _ := ⟨none, false⟩

/-- The model is installed, and is loaded under an id. -/
def installedAs (id : ℕ) : ResolveAnswers :=
  ⟨.ok "llama/model.gguf", .error "not asked", loadsAs id⟩

/-- Two requests for one model, at a server that has loaded nothing yet. -/
def twoRequests : ApiSystem Bool where
  state := ⟨⟨fun _ => none, fun _ => none, false, []⟩, fun _ => none, true⟩
  phases _ := .checking
  counters := ⟨1, 1⟩

def sameModel (_ : Bool) : String := "llama"

/-- One step of a request, as which the model is loaded if it is loaded now. -/
def stepped (system : ApiSystem Bool) (call : Bool) (id next : ℕ) : ApiSystem Bool :=
  system.advance [] sameModel call (installedAs id) ⟨next, 1⟩

/-- The handle that is loaded under an id. -/
def llama (id : ℕ) : ModelHandle := ⟨id, "llama/model.gguf", .candle⟩

theorem numbers_none (counters : HandleCounters) : counters.Numbers counters none :=
  ⟨fun _ => Nat.le_refl _, fun h => nomatch h⟩

theorem numbers_llama (id : ℕ) :
    HandleCounters.Numbers ⟨id, 1⟩ ⟨id + 1, 1⟩ (some (llama id)) where
  grows := by
    intro engine
    cases engine <;> simp [HandleCounters.next]
  new := by
    rintro handle ⟨⟩
    exact ⟨Nat.le_refl id, Nat.lt_succ_self id⟩

/-- The second request comes when the first one is through, and is given its handle. -/
theorem one_copy_per_model_in_turn :
    ∃ events later, OneCopy sameModel events later ∧
      later.phases true = .returned (.ok (llama 1)) ∧
      later.phases false = .returned (.ok (llama 1)) := by
  let checked := stepped twoRequests true 1 1
  let resolved := stepped checked true 1 1
  let loaded := stepped resolved true 1 2
  let inserted := stepped loaded true 1 2
  have alone : FindsAlone sameModel twoRequests
      ((stepped twoRequests true 1 1).event twoRequests true) :=
    Or.inr fun _ _ => id
  have runChecked : Run (Guarded (FindsAlone sameModel) (ResolveStep [] sameModel)) twoRequests _
      checked :=
    Run.single ⟨alone, advance_step twoRequests true (installedAs 1) (numbers_none _)⟩
  have runResolved : Run (Guarded (FindsAlone sameModel) (ResolveStep [] sameModel)) twoRequests _
      resolved :=
    runChecked.snoc ⟨by trivial, advance_step checked true (installedAs 1) (numbers_none _)⟩
  have runLoaded : Run (Guarded (FindsAlone sameModel) (ResolveStep [] sameModel)) twoRequests _
      loaded :=
    runResolved.snoc ⟨by trivial, advance_step resolved true (installedAs 1) (numbers_llama 1)⟩
  have runInserted : Run (Guarded (FindsAlone sameModel) (ResolveStep [] sameModel)) twoRequests _
      inserted :=
    runLoaded.snoc ⟨by trivial, advance_step loaded true (installedAs 1) (numbers_none _)⟩
  have found : inserted.state.models "llama" ≠ none := nofun
  have runFound : Run (Guarded (FindsAlone sameModel) (ResolveStep [] sameModel)) twoRequests _
      (stepped inserted false 1 2) :=
    runInserted.snoc ⟨by exact Or.inl found,
      advance_step inserted false (installedAs 1) (numbers_none _)⟩
  exact ⟨_, _, one_copy_per_model (fun _ => rfl) runFound, rfl, rfl⟩

/-- Both requests find the model missing, load it, and insert their handles. -/
theorem overlapping_requests_load_twice :
    ∃ events later, Run (ResolveStep [] sameModel) twoRequests events later ∧
      (later.phases true = .returned (.ok (llama 1)) ∧
        later.phases false = .returned (.ok (llama 2))) ∧
      later.state.models "llama" = some (llama 2) ∧
      loadedNames sameModel events = ["llama", "llama"] ∧ ¬ OneCopy sameModel events later := by
  let checked := stepped (stepped twoRequests true 1 1) false 1 1
  let resolved := stepped (stepped checked true 1 1) false 1 1
  let loaded := stepped (stepped resolved true 1 2) false 2 3
  let inserted := stepped (stepped loaded true 1 3) false 1 3
  have runChecked : Run (ResolveStep [] sameModel) twoRequests _ checked :=
    (Run.single (advance_step twoRequests true (installedAs 1) (numbers_none _))).snoc
      (advance_step _ false (installedAs 1) (numbers_none _))
  have runResolved : Run (ResolveStep [] sameModel) twoRequests _ resolved :=
    (runChecked.snoc (advance_step checked true (installedAs 1) (numbers_none _))).snoc
      (advance_step _ false (installedAs 1) (numbers_none _))
  have runLoaded : Run (ResolveStep [] sameModel) twoRequests _ loaded :=
    (runResolved.snoc (advance_step resolved true (installedAs 1) (numbers_llama 1))).snoc
      (advance_step _ false (installedAs 2) (numbers_llama 2))
  have runInserted : Run (ResolveStep [] sameModel) twoRequests _ inserted :=
    (runLoaded.snoc (advance_step loaded true (installedAs 1) (numbers_none _))).snoc
      (advance_step _ false (installedAs 1) (numbers_none _))
  have hfirst : inserted.phases true = .returned (.ok (llama 1)) := rfl
  have hmodels : inserted.state.models "llama" = some (llama 2) := rfl
  refine ⟨_, inserted, runInserted, ⟨hfirst, rfl⟩, hmodels, rfl, ?_⟩
  intro hone
  have hshared : inserted.state.models "llama" = some (llama 1) := hone.shared hfirst
  rw [hmodels] at hshared
  cases hshared

end HiveBear.Cli
