/-
# The order of a daemon's pipeline calls

The daemon receives pipeline messages one after the other, but spawns a task for each and
goes on. The tasks call the CLI's pipeline handler when the scheduler runs them: a forward
pass and an unloading hold the slot's lock from end to end, and loading first has the
orchestrator load the model and then takes the lock to store it.

So a message overtakes another one as soon as both their tasks are pending. The calls are in
the order of the messages if and only if no pipeline message is received before the calls for
all earlier ones have taken effect. A pipeline worker, which makes its calls before it
receives again, always is in order.
-/

import HiveBear.Cli.PipelineHandler
import HiveBear.Library.SpawnedCalls
import HiveBear.Mesh.Pipeline.Daemon

namespace HiveBear.Cli

open IntervalTiling LabelledRun Mesh SpawnedCalls

variable {O Handle : Type*}

/-! ## Loading in two steps -/

/-- Have the orchestrator load a stage. The slot is not touched yet. -/
def CliPipelineHandler.loadStage (orchestrator : Orchestrator O Handle)
    (s : HandlerState O Handle) (modelSource : String) (layerRange : Range) (totalLayers : ℕ) :
    Except String (PipelineState Handle) × HandlerState O Handle :=
  if !orchestrator.pathExists s.orchestrator modelSource then
    (.error s!"Model not found: {modelSource}", s)
  else
    let loadConfig : LoadConfig := ⟨4096, some ⟨layerRange, totalLayers⟩, true⟩
    match orchestrator.load s.orchestrator modelSource loadConfig with
    | (.error e, o) => (.error s!"Failed to load layers: {e}", { s with orchestrator := o })
    | (.ok handle, o) => (.ok ⟨handle, layerRange, totalLayers⟩, { s with orchestrator := o })

/-- Loading is to have the orchestrator load a stage and then to store it. -/
theorem CliPipelineHandler.loadLayers_eq (orchestrator : Orchestrator O Handle)
    (s : HandlerState O Handle) (modelSource : String) (layerRange : Range) (totalLayers : ℕ) :
    loadLayers orchestrator s modelSource layerRange totalLayers =
      match loadStage orchestrator s modelSource layerRange totalLayers with
      | (.error e, loaded) => (.error e, loaded)
      | (.ok stage, loaded) => (.ok (), { loaded with state := some stage }) := by
  rw [loadLayers, loadStage]
  split
  · rfl
  · dsimp only
    obtain ⟨answer, o⟩ :=
      orchestrator.load s.orchestrator modelSource ⟨4096, some ⟨layerRange, totalLayers⟩, true⟩
    cases answer with
    | error e => rfl
    | ok handle => rfl

/-! ## Tasks -/

/-- What a task still has to do. -/
inductive Todo (Handle : Type*)
  | load (sessionId : Uuid) (modelSource : String) (layerRange : Range) (totalLayers : ℕ)
  /-- The model is loaded, and the slot's lock is still to be taken. -/
  | store (sessionId : Uuid) (stage : PipelineState Handle)
  | forward (sessionId : Uuid) (tokenPosition : ℕ) (data : List UInt8) (shape : List ℕ)
      (dtype : TensorDtype)
  | unload
  | finished

/-- What the daemon spawns for a message, if it is a pipeline message. -/
def Todo.ofMessage : MeshMessage → Option (Todo Handle)
  | .releaseSession _ => some .unload
  | .assignLayers sessionId _ layerRange totalLayers modelSource _ _ =>
      some (.load sessionId modelSource layerRange totalLayers)
  | .activationTensor sessionId tokenPosition data shape dtype =>
      some (.forward sessionId tokenPosition data shape dtype)
  | _ => none

/-- The task of a pipeline message. -/
structure PipelineTask (Handle : Type*) where
  peerId : NodeId
  message : MeshMessage
  todo : Todo Handle

/-- A call that has taken effect: the position of its message, and of the assignment whose
layers it stored, used or unloaded. -/
structure Effect where
  message : ℕ
  layers : Option ℕ

/-- A daemon's handler, its tasks, and what they have sent. The assignment whose layers the
slot holds and the calls that have taken effect are for what is said about it only. -/
structure DaemonTasks (O Handle : Type*) where
  handler : HandlerState O Handle
  tasks : List (PipelineTask Handle)
  sends : List Envelope
  owner : Option ℕ
  effects : List Effect

namespace DaemonTasks

section Steps

variable (orchestrator : Orchestrator O Handle) (inference : MeshInferenceHandler)

/-- A daemon that uses the CLI's pipeline handler. -/
def cliDaemon : MeshWorkerDaemon (HandlerState O Handle) :=
  ⟨inference, some (CliPipelineHandler.pipelineHandler orchestrator)⟩

/-- A daemon that has not received anything yet. -/
def fresh (o : O) : DaemonTasks O Handle := ⟨⟨o, none⟩, [], [], none, []⟩

variable (s : DaemonTasks O Handle)

/-- Receive a message: spawn a task for it, and go on. -/
def receive (envelope : Envelope) : DaemonTasks O Handle :=
  match Todo.ofMessage envelope.2 with
  | some todo => { s with tasks := s.tasks ++ [⟨envelope.1, envelope.2, todo⟩] }
  | none => s

/-- The call of a task takes effect. -/
def finish (i : ℕ) (task : PipelineTask Handle) (reaction : DaemonReaction (HandlerState O Handle))
    (owner layers : Option ℕ) : DaemonTasks O Handle where
  handler := reaction.handler
  tasks := s.tasks.set i { task with todo := .finished }
  sends := s.sends ++ reaction.sends
  owner := owner
  effects := s.effects ++ [⟨i, layers⟩]

/-- Run a task up to its next point of interleaving. -/
def runTask (i : ℕ) (task : PipelineTask Handle) : DaemonTasks O Handle :=
  match task.todo with
  | .load sessionId modelSource layerRange totalLayers =>
      match CliPipelineHandler.loadStage orchestrator s.handler modelSource layerRange
        totalLayers with
      | (.error e, handler) =>
          s.finish i task ⟨handler, [(task.peerId, .assignLayersAck sessionId false (some e))], none⟩
            s.owner none
      | (.ok stage, handler) =>
          { s with
            handler := handler
            tasks := s.tasks.set i { task with todo := .store sessionId stage } }
  | .store sessionId stage =>
      s.finish i task ⟨{ s.handler with state := some stage },
        [(task.peerId, .assignLayersAck sessionId true none)], none⟩ (some i) (some i)
  | .forward sessionId tokenPosition data shape dtype =>
      s.finish i task ((cliDaemon orchestrator inference).onActivationTensor s.handler task.peerId
        sessionId tokenPosition data shape dtype) s.owner s.owner
  | .unload =>
      s.finish i task ((cliDaemon orchestrator inference).onReleaseSession s.handler) none s.owner
  | .finished => s

/-- What happens next: a message comes in, or the scheduler picks a task. -/
inductive Event
  | receive (envelope : Envelope)
  | run (i : ℕ)

/-- The task is still to take effect. -/
def Pending (i : ℕ) : Prop := ∃ task, s.tasks[i]? = some task ∧ task.todo ≠ .finished

inductive Step : DaemonTasks O Handle → Event → DaemonTasks O Handle → Prop
  | receive (s : DaemonTasks O Handle) (envelope : Envelope) :
      Step s (.receive envelope) (s.receive envelope)
  | run {s : DaemonTasks O Handle} {i : ℕ} {task : PipelineTask Handle}
      (found : s.tasks[i]? = some task) (pending : task.todo ≠ .finished) :
      Step s (.run i) (runTask orchestrator inference s i task)

end Steps

/-! ## Order -/

section Order

variable (s : DaemonTasks O Handle)

/-- The activations of a session that were received, first to last. -/
def activationsReceived (sessionId : Uuid) : List MeshMessage :=
  (s.tasks.map PipelineTask.message).filter fun
    | .activationTensor session .. => session = sessionId
    | _ => false

/-- The activations of a session that were forwarded, first to last. -/
def activationsForwarded (sessionId : Uuid) : List MeshMessage :=
  (s.effects.filterMap fun effect => (s.tasks.map PipelineTask.message)[effect.message]?).filter fun
    | .activationTensor session .. => session = sessionId
    | _ => false

/-- The calls took effect in the order of their messages. -/
structure KeepsOrder : Prop where
  ordered : s.effects.Pairwise fun before after => before.message < after.message
  activations : ∀ sessionId,
    (s.activationsForwarded sessionId).Sublist (s.activationsReceived sessionId)
  /-- No layers are unloaded for a message that came before their assignment. -/
  releases : ∀ effect ∈ s.effects, ∀ sessionId,
    (s.tasks.map PipelineTask.message)[effect.message]? = some (.releaseSession sessionId) →
      ∀ assignment, effect.layers = some assignment → ¬ effect.message < assignment

/-- A pipeline message is received only when the calls for all earlier ones have taken
effect. -/
def CallsSettled : Event → Prop
  | .receive envelope =>
      (Todo.ofMessage envelope.2 : Option (Todo Handle)).isSome → ∀ i, ¬ s.Pending i
  | .run _ => True

end Order

section Proofs

variable {orchestrator : Orchestrator O Handle} {inference : MeshInferenceHandler}
  {s t : DaemonTasks O Handle} {i j : ℕ} {task : PipelineTask Handle}

theorem ofMessage_ne_finished {message : MeshMessage} {todo : Todo Handle}
    (h : Todo.ofMessage message = some todo) : todo ≠ .finished := by
  cases message <;> cases h <;> intro hfinished <;> cases hfinished

/-- How a daemon is seen. -/
def view : View (DaemonTasks O Handle) where
  spawned s := s.tasks.length
  pending s i := s.Pending i
  done s := s.effects.map Effect.message

/-- A task that runs either only has its model loaded, or its call takes effect, on the
layers in the slot or on those it has just stored. -/
theorem runTask_cases (pending : task.todo ≠ .finished) :
    (∃ sessionId stage handler, runTask orchestrator inference s i task =
      { s with
        handler := handler
        tasks := s.tasks.set i { task with todo := .store sessionId stage } }) ∨
    ∃ reaction owner layers,
      runTask orchestrator inference s i task = s.finish i task reaction owner layers ∧
      (owner = some i ∧ layers = some i ∨
        (owner = s.owner ∨ owner = none) ∧ (layers = none ∨ layers = s.owner)) := by
  cases htodo : task.todo with
  | load sessionId modelSource layerRange totalLayers =>
      cases hload : CliPipelineHandler.loadStage orchestrator s.handler modelSource layerRange
        totalLayers with
      | mk result handler =>
          cases result with
          | error e =>
              refine Or.inr ⟨⟨handler, [(task.peerId, .assignLayersAck sessionId false (some e))],
                none⟩, s.owner, none, ?_, Or.inr ⟨Or.inl rfl, Or.inl rfl⟩⟩
              simp only [runTask, htodo, hload]
          | ok stage =>
              refine Or.inl ⟨sessionId, stage, handler, ?_⟩
              simp only [runTask, htodo, hload]
  | store sessionId stage =>
      refine Or.inr ⟨⟨{ s.handler with state := some stage },
        [(task.peerId, .assignLayersAck sessionId true none)], none⟩, some i, some i, ?_,
        Or.inl ⟨rfl, rfl⟩⟩
      simp only [runTask, htodo]
  | forward sessionId tokenPosition data shape dtype =>
      refine Or.inr ⟨(cliDaemon orchestrator inference).onActivationTensor s.handler task.peerId
        sessionId tokenPosition data shape dtype, s.owner, s.owner, ?_,
        Or.inr ⟨Or.inl rfl, Or.inr rfl⟩⟩
      simp only [runTask, htodo]
  | unload =>
      refine Or.inr ⟨(cliDaemon orchestrator inference).onReleaseSession s.handler, none, s.owner,
        ?_, Or.inr ⟨Or.inr rfl, Or.inr rfl⟩⟩
      simp only [runTask, htodo]
  | finished => exact absurd htodo pending

/-- What is pending behind a task that has moved on. -/
theorem pending_set {next : PipelineTask Handle} (htasks : t.tasks = s.tasks.set i next)
    (hpending : t.Pending j) : j = i ∧ next.todo ≠ .finished ∨ j ≠ i ∧ s.Pending j := by
  obtain ⟨found, hfound, htodo⟩ := hpending
  rw [htasks, List.getElem?_set] at hfound
  split at hfound
  · rename_i hsame
    split at hfound
    · cases hfound
      exact Or.inl ⟨hsame.symm, htodo⟩
    · cases hfound
  · rename_i hother
    exact Or.inr ⟨fun h => hother h.symm, found, hfound, htodo⟩

/-- Nobody else's task is touched. -/
theorem pending_of_ne {next : PipelineTask Handle} (htasks : t.tasks = s.tasks.set i next)
    (hother : j ≠ i) (hpending : s.Pending j) : t.Pending j := by
  obtain ⟨found, hfound, htodo⟩ := hpending
  refine ⟨found, ?_, htodo⟩
  rw [htasks, List.getElem?_set_ne fun h => hother h.symm]
  exact hfound

/-! ### One message at a time -/

/-- The call of a pending task takes effect. -/
theorem move_finish (reaction : DaemonReaction (HandlerState O Handle)) (owner layers : Option ℕ)
    (before : s.Pending i) : Move view s (s.finish i task reaction owner layers) := by
  apply Move.finish i before
  · exact List.length_set
  · intro j hpending
    rcases pending_set rfl hpending with ⟨-, hfinished⟩ | ⟨hother, hpending⟩
    · exact absurd rfl hfinished
    · exact ⟨hpending, hother⟩
  · exact List.map_append

/-- A task that is spawned for a message when none is pending is the only one. -/
theorem move_receive {envelope : Envelope} (hsettled : s.CallsSettled (.receive envelope)) :
    Move view s (s.receive envelope) := by
  rw [receive]
  split
  · rename_i todo htodo
    have hidle : ∀ i, ¬ s.Pending i := hsettled (by rw [htodo]; rfl)
    apply Move.spawn hidle
    · exact List.length_append
    · rintro i ⟨task, hfound, hpending⟩
      rw [List.getElem?_append] at hfound
      split at hfound
      · exact absurd ⟨task, hfound, hpending⟩ (hidle i)
      · rename_i hnew
        have hsingle := (List.getElem?_eq_some_iff.mp hfound).1
        show i = s.tasks.length
        simp only [List.length_singleton] at hsingle
        omega
    · rfl
  · exact Move.stay rfl (fun i hpending => hpending) rfl

/-- A step from a state with the calls settled is a move. -/
theorem move_of_guarded {event : Event}
    (step : Guarded CallsSettled (Step orchestrator inference) s event t) : Move view s t := by
  obtain ⟨hsettled, step⟩ := step
  cases step with
  | receive envelope => exact move_receive hsettled
  | @run i task found pending =>
      have before : s.Pending i := ⟨task, found, pending⟩
      rcases runTask_cases pending with ⟨sessionId, stage, handler, hnext⟩ |
        ⟨reaction, owner, layers, hnext, -⟩
      · rw [hnext]
        apply Move.stay
        · exact List.length_set
        · intro j hpending
          rcases pending_set rfl hpending with ⟨rfl, -⟩ | ⟨-, hpending⟩
          · exact before
          · exact hpending
        · rfl
      · rw [hnext]
        exact move_finish reaction owner layers before

/-- What holds behind a run in which the calls are settled: the calls are in order, and nobody
has used or holds layers of a message that came later. -/
structure Settled (s : DaemonTasks O Handle) : Prop where
  inOrder : InOrder view s
  owner_done : ∀ assignment, s.owner = some assignment →
    assignment ∈ s.effects.map Effect.message
  layers_le : ∀ effect ∈ s.effects, ∀ assignment, effect.layers = some assignment →
    assignment ≤ effect.message

/-- A call that takes effect uses layers that were assigned before. -/
theorem Settled.finish (h : s.Settled) {reaction : DaemonReaction (HandlerState O Handle)}
    {owner layers : Option ℕ} (before : s.Pending i)
    (hlayers : owner = some i ∧ layers = some i ∨
      (owner = s.owner ∨ owner = none) ∧ (layers = none ∨ layers = s.owner)) :
    (s.finish i task reaction owner layers).Settled where
  inOrder := h.inOrder.move (move_finish reaction owner layers before)
  owner_done := fun assignment howner => by
    show assignment ∈ (s.effects ++ [(⟨i, layers⟩ : Effect)]).map Effect.message
    rw [List.map_append, List.mem_append]
    replace howner : owner = some assignment := howner
    rcases hlayers with ⟨hown, -⟩ | ⟨hkept | hnone, -⟩
    · rw [hown] at howner
      cases howner
      exact Or.inr (List.mem_singleton.mpr rfl)
    · rw [hkept] at howner
      exact Or.inl (h.owner_done assignment howner)
    · rw [hnone] at howner
      cases howner
  layers_le := fun effect heffect assignment hused => by
    rcases List.mem_append.mp heffect with hold | hnew
    · exact h.layers_le effect hold assignment hused
    · rw [List.mem_singleton] at hnew
      subst hnew
      replace hused : layers = some assignment := hused
      show assignment ≤ i
      rcases hlayers with ⟨-, hown⟩ | ⟨-, hnone | hkept⟩
      · rw [hown] at hused
        cases hused
        exact le_rfl
      · rw [hnone] at hused
        cases hused
      · rw [hkept] at hused
        exact le_of_lt (h.inOrder.behind before _ (h.owner_done assignment hused))

/-- Every step with the calls settled keeps them so. -/
theorem Settled.step (h : s.Settled) {event : Event}
    (step : Guarded CallsSettled (Step orchestrator inference) s event t) : t.Settled := by
  have hinOrder := h.inOrder.move (move_of_guarded step)
  obtain ⟨-, step⟩ := step
  cases step with
  | receive envelope =>
      refine ⟨hinOrder, ?_, ?_⟩
      · rw [receive]
        split <;> exact h.owner_done
      · rw [receive]
        split <;> exact h.layers_le
  | @run i task found pending =>
      have before : s.Pending i := ⟨task, found, pending⟩
      rcases runTask_cases pending with ⟨sessionId, stage, handler, hnext⟩ |
        ⟨reaction, owner, layers, hnext, hlayers⟩
      · rw [hnext] at hinOrder ⊢
        exact ⟨hinOrder, h.owner_done, h.layers_le⟩
      · rw [hnext]
        exact h.finish before hlayers

/-- Settled calls keep the order of the messages. -/
theorem Settled.keepsOrder (h : s.Settled) : s.KeepsOrder where
  ordered := List.pairwise_map.mp h.inOrder.ordered
  activations := fun sessionId => by
    apply List.Sublist.filter
    have hsublist := @sublist_of_positions _ (s.tasks.map PipelineTask.message)
      (s.effects.map Effect.message) h.inOrder.ordered
      (fun i hi => by rw [List.length_map]; exact h.inOrder.done_lt i hi)
    rw [List.filterMap_map] at hsublist
    exact hsublist
  releases := fun effect heffect _ _ assignment hused =>
    not_lt.mpr (h.layers_le effect heffect assignment hused)

/-! ### A task on its own -/

/-- A task that loads layers without interruption loads them as the handler's call does. -/
theorem run_load {sessionId : Uuid} {modelSource : String} {layerRange : Range} {totalLayers : ℕ}
    (found : s.tasks[i]? = some task)
    (htodo : task.todo = .load sessionId modelSource layerRange totalLayers) :
    let loaded := CliPipelineHandler.loadLayers orchestrator s.handler modelSource layerRange
      totalLayers
    ∃ events t, Run (Step orchestrator inference) s events t ∧ t.handler = loaded.2 ∧
      t.sends = s.sends ++ [(task.peerId, match loaded.1 with
        | .ok _ => .assignLayersAck sessionId true none
        | .error e => .assignLayersAck sessionId false (some e))] := by
  have hinside : i < s.tasks.length := (List.getElem?_eq_some_iff.mp found).1
  have pending : task.todo ≠ .finished := by
    rw [htodo]
    intro hfinished
    cases hfinished
  have first := @Step.run O Handle orchestrator inference s i task found pending
  simp only [runTask, htodo] at first
  intro loaded
  have hloaded : loaded = _ := CliPipelineHandler.loadLayers_eq orchestrator s.handler modelSource
    layerRange totalLayers
  rw [hloaded]
  cases hstage : CliPipelineHandler.loadStage orchestrator s.handler modelSource layerRange
    totalLayers with
  | mk result handler =>
      rw [hstage] at first
      cases result with
      | error e => exact ⟨_, _, Run.single first, rfl, rfl⟩
      | ok stage =>
          -- The stage is stored in a second step.
          have found' := @List.getElem?_set_self _ s.tasks i { task with
            todo := .store sessionId stage } hinside
          have second := @Step.run O Handle orchestrator inference
            { s with
              handler := handler
              tasks := s.tasks.set i { task with todo := .store sessionId stage } } i _ found'
            (fun hfinished => by cases hfinished)
          exact ⟨_, _, (Run.single first).snoc second, rfl, rfl⟩

/-- A task that runs without interruption does what the daemon's reaction to its message
says. -/
theorem run_alone (orchestrator : Orchestrator O Handle) (inference : MeshInferenceHandler)
    {envelope : Envelope} {todo : Todo Handle} (h : Todo.ofMessage envelope.2 = some todo) :
    ∃ events t, Run (Step orchestrator inference) (s.receive envelope) events t ∧
      t.handler = ((cliDaemon orchestrator inference).handle s.handler envelope.1
        envelope.2).handler ∧
      t.sends = s.sends ++ ((cliDaemon orchestrator inference).handle s.handler envelope.1
        envelope.2).sends := by
  obtain ⟨peerId, message⟩ := envelope
  have hfound : ∀ todo : Todo Handle,
      ({ s with tasks := s.tasks ++ [⟨peerId, message, todo⟩] } : DaemonTasks O Handle).tasks[
        s.tasks.length]? = some ⟨peerId, message, todo⟩ :=
    fun _ => List.getElem?_concat_length
  have first := @Step.run O Handle orchestrator inference _ _ _ (hfound todo)
    (ofMessage_ne_finished h)
  have hreceive : s.receive (peerId, message) =
      { s with tasks := s.tasks ++ [⟨peerId, message, todo⟩] } := by
    rw [receive, h]
  rw [hreceive]
  cases message <;> cases h
  case releaseSession => exact ⟨_, _, Run.single first, rfl, rfl⟩
  case activationTensor => exact ⟨_, _, Run.single first, rfl, rfl⟩
  case assignLayers sessionId _ layerRange totalLayers modelSource _ _ =>
      obtain ⟨events, t, run, hhandler, hsends⟩ :=
        @run_load O Handle orchestrator inference _ _ _ _ _ _ _ (hfound _) rfl
      exact ⟨events, t, run, hhandler, hsends⟩

/-! ### Overtaking -/

/-- Any pending task can be run until its call takes effect, with everybody else waiting. -/
theorem exists_finish (hpending : s.Pending i) :
    ∃ labels t, Run (Step orchestrator inference) s labels t ∧
      t.effects.map Effect.message = s.effects.map Effect.message ++ [i] ∧
      ∀ j ≠ i, s.Pending j → t.Pending j := by
  obtain ⟨task, found, pending⟩ := hpending
  have hinside : i < s.tasks.length := (List.getElem?_eq_some_iff.mp found).1
  have first := @Step.run O Handle orchestrator inference s i task found pending
  rcases runTask_cases pending with ⟨sessionId, stage, handler, hnext⟩ |
    ⟨reaction, owner, layers, hnext, -⟩
  · -- The model is loaded; storing it is one more step.
    rw [hnext] at first
    generalize hloaded : ({ s with
      handler := handler
      tasks := s.tasks.set i { task with todo := .store sessionId stage } } :
        DaemonTasks O Handle) = loaded at first
    have found' : loaded.tasks[i]? = some { task with todo := .store sessionId stage } := by
      rw [← hloaded]
      exact List.getElem?_set_self hinside
    have second := @Step.run O Handle orchestrator inference loaded i _ found'
      (fun hfinished => by cases hfinished)
    refine ⟨_, _, (Run.single first).snoc second, ?_, ?_⟩
    · show (loaded.effects ++ [(⟨i, some i⟩ : Effect)]).map Effect.message = _
      rw [List.map_append, ← hloaded]
      rfl
    · intro j hother hpending
      have hkept : loaded.Pending j := by
        rw [← hloaded]
        exact pending_of_ne rfl hother hpending
      exact pending_of_ne rfl hother hkept
  · rw [hnext] at first
    refine ⟨_, _, Run.single first, List.map_append, ?_⟩
    intro j hother hpending
    exact pending_of_ne rfl hother hpending

/-- A message that is received while a task is pending can overtake it. -/
theorem exists_overtaking {envelope : Envelope} (h : ¬ s.CallsSettled (.receive envelope)) :
    ∃ labels t, Run (Step orchestrator inference) (s.receive envelope) labels t ∧
      ¬ t.KeepsOrder := by
  obtain ⟨hpipeline, hbusy⟩ := not_forall.mp h
  obtain ⟨todo, htodo⟩ := Option.isSome_iff_exists.mp hpipeline
  obtain ⟨i, hpending⟩ := not_forall_not.mp hbusy
  have hinside : i < s.tasks.length := by
    obtain ⟨task, found, -⟩ := hpending
    exact (List.getElem?_eq_some_iff.mp found).1
  have htasks : (s.receive envelope).tasks =
      s.tasks ++ [⟨envelope.1, envelope.2, todo⟩] := by
    rw [receive, htodo]
  have heffects : (s.receive envelope).effects = s.effects := by
    rw [receive, htodo]
  have hnew : (s.receive envelope).Pending s.tasks.length := by
    refine ⟨⟨envelope.1, envelope.2, todo⟩, ?_, ofMessage_ne_finished htodo⟩
    rw [htasks, List.getElem?_concat_length]
  have hold : (s.receive envelope).Pending i := by
    obtain ⟨task, found, pending⟩ := hpending
    refine ⟨task, ?_, pending⟩
    rw [htasks, List.getElem?_append_left hinside]
    exact found
  -- The later task runs first, and then the earlier one.
  obtain ⟨first, overtaken, hfirst, hdone, hkept⟩ :=
    @exists_finish O Handle orchestrator inference _ _ hnew
  obtain ⟨second, t, hsecond, hdone', -⟩ :=
    @exists_finish O Handle orchestrator inference _ _ (hkept i (Nat.ne_of_lt hinside) hold)
  refine ⟨first ++ second, t, hfirst.append hsecond, ?_⟩
  intro hordered
  have hpairwise := List.pairwise_map.mpr hordered.ordered
  rw [hdone', hdone, List.pairwise_append] at hpairwise
  have hearlier : s.tasks.length < i :=
    hpairwise.2.2 _ (List.mem_append_right _ (List.mem_singleton.mpr rfl)) i
      (List.mem_singleton.mpr rfl)
  exact absurd hinside (lt_asymm hearlier)

/-- **The daemon keeps the order of messages exactly if it receives a pipeline message only
when the calls for all earlier ones have taken effect**: then every run does, and otherwise the
message it receives can overtake another one. -/
theorem daemon_keeps_order_exact (orchestrator : Orchestrator O Handle)
    (inference : MeshInferenceHandler) :
    (∀ {o : O} {events : List Event} {t : DaemonTasks O Handle},
      Run (Guarded CallsSettled (Step orchestrator inference)) (fresh o) events t →
        t.KeepsOrder) ∧
    ∀ {s : DaemonTasks O Handle} {envelope : Envelope},
      ¬ s.CallsSettled (.receive envelope) →
        ∃ events t, Run (Step orchestrator inference) (s.receive envelope) events t ∧
          ¬ t.KeepsOrder := by
  refine ⟨?_, fun h => exists_overtaking h⟩
  intro o events t run
  have hfresh : (fresh o : DaemonTasks O Handle).Settled := by
    have hidle : ∀ i, ¬ (fresh o : DaemonTasks O Handle).Pending i := by
      rintro i ⟨task, found, -⟩
      cases found
    refine ⟨inOrder_run (fun step => move_of_guarded step) hidle rfl
      (@Run.nil _ _ (Guarded CallsSettled (Step orchestrator inference)) _), ?_, ?_⟩
    · intro assignment howner
      cases howner
    · intro effect heffect
      cases heffect
  have hsettled : t.Settled := run.invariant (fun h step => h.step step) hfresh
  exact hsettled.keepsOrder

end Proofs

/-! ## A release and an assignment -/

/-- An orchestrator whose models always load and pass their input through. -/
def passThrough : Orchestrator Unit Unit where
  pathExists _ _ := true
  load o _ _ := (.ok (), o)
  unload o _ := (.ok (), o)
  hasBackend _ _ := true
  forwardPartial o _ input _ _ := (.ok input, o)

def noInference : MeshInferenceHandler := ⟨fun _ _ _ _ => .error "no model"⟩

def releaseFirst : Envelope := (NodeId.ofByte 1, .releaseSession 1)

def assignFirst : Envelope :=
  (NodeId.ofByte 1, .assignLayers 1 "model" ⟨0, 4⟩ 4 "model.gguf" none (NodeId.ofByte 1))

theorem guarded_receive {s : DaemonTasks Unit Unit} {envelope : Envelope}
    (h : s.CallsSettled (.receive envelope)) :
    Guarded CallsSettled (Step passThrough noInference) s (.receive envelope)
      (s.receive envelope) :=
  ⟨h, Step.receive s envelope⟩

theorem guarded_run {s : DaemonTasks Unit Unit} (i : ℕ) {task : PipelineTask Unit}
    (found : s.tasks[i]? = some task) (pending : task.todo ≠ .finished) :
    Guarded CallsSettled (Step passThrough noInference) s (.run i)
      (runTask passThrough noInference s i task) :=
  ⟨trivial, Step.run found pending⟩

/-- A peer that waits for the acknowledgement before it releases is served in order; one that
assigns while its release is pending need not be. -/
theorem daemon_keeps_order_exact_acknowledged :
    (∃ events t, Run (Guarded CallsSettled (Step passThrough noInference)) (fresh ()) events t ∧
      t.KeepsOrder ∧ t.effects = [⟨0, some 0⟩, ⟨1, some 0⟩]) ∧
    ∃ events t, Run (Step passThrough noInference)
      (((fresh () : DaemonTasks Unit Unit).receive releaseFirst).receive assignFirst) events t ∧
        ¬ t.KeepsOrder := by
  have hidle : ∀ i, ¬ (fresh () : DaemonTasks Unit Unit).Pending i := by
    rintro i ⟨task, found, -⟩
    cases found
  have hassigned := @Run.nil _ _ (Guarded CallsSettled (Step passThrough noInference)) (fresh ())
    |>.snoc (@guarded_receive _ assignFirst fun _ => hidle)
    |>.snoc (guarded_run 0 rfl (fun h => by cases h))
    |>.snoc (guarded_run 0 rfl (fun h => by cases h))
  have hreleased := hassigned
    |>.snoc (@guarded_receive _ releaseFirst (by
      rintro - i ⟨task, found, pending⟩
      cases i with
      | zero =>
          cases found
          exact pending rfl
      | succ i => cases found))
    |>.snoc (guarded_run 1 rfl (fun h => by cases h))
  refine ⟨⟨_, _, hreleased, (daemon_keeps_order_exact passThrough noInference).1 hreleased, rfl⟩,
    (daemon_keeps_order_exact passThrough noInference).2 ?_⟩
  intro hsettled
  exact hsettled rfl 0 ⟨_, rfl, fun h => by cases h⟩

/-- A release whose task is slow unloads the layers of the assignment received after it. -/
theorem release_unloads_later_assignment :
    ∃ t, Run (Step passThrough noInference) (fresh ())
        [.receive releaseFirst, .receive assignFirst, .run 1, .run 1, .run 0] t ∧
      t.effects = [⟨1, some 1⟩, ⟨0, some 1⟩] ∧ t.handler.state = none ∧ ¬ t.KeepsOrder := by
  have run := @Run.nil _ _ (Step passThrough noInference) (fresh ())
    |>.snoc (Step.receive _ releaseFirst) |>.snoc (Step.receive _ assignFirst)
    |>.snoc (@Step.run _ _ _ _ _ 1 _ rfl (fun h => by cases h))
    |>.snoc (@Step.run _ _ _ _ _ 1 _ rfl (fun h => by cases h))
    |>.snoc (@Step.run _ _ _ _ _ 0 _ rfl (fun h => by cases h))
  refine ⟨_, run, rfl, rfl, ?_⟩
  intro hordered
  have hunloaded : (⟨0, some 1⟩ : Effect) ∈ [(⟨1, some 1⟩ : Effect), ⟨0, some 1⟩] :=
    List.mem_cons_of_mem _ (List.mem_singleton.mpr rfl)
  exact hordered.releases _ hunloaded 1 rfl 1 rfl Nat.one_pos

end DaemonTasks

end HiveBear.Cli
