/-
# Stages that nobody can unload any more

The handler's slot is the only place that remembers the handle of a loaded stage. To say
what becomes of the handles, the orchestrator is put behind a recorder, which notes each
handle that a load gives out and each handle whose unload succeeds; the handler runs over
the recorder as it runs over the orchestrator itself.

Every handle is accounted for as long as nothing is loaded over a stage and no unload of
the stage in the slot fails. Both lose a handle: a load overwrites the slot without
unloading what was in it, and an unload empties the slot before it knows its outcome.
-/

import HiveBear.Cli.PipelineHandler
import HiveBear.Library.Run
import Mathlib.Data.List.Perm.Basic

namespace HiveBear.Cli

open IntervalTiling LabelledRun

variable {O Handle : Type*}

/-! ## Recording what the orchestrator did -/

/-- An orchestrator's state, with the handles of its successful loads and unloads. -/
structure StageLedger (O Handle : Type*) where
  orchestrator : O
  loaded : List Handle
  unloaded : List Handle

/-- The orchestrator behind a recorder. -/
def Orchestrator.recorded (orchestrator : Orchestrator O Handle) :
    Orchestrator (StageLedger O Handle) Handle where
  pathExists r := orchestrator.pathExists r.orchestrator
  load r path config :=
    match orchestrator.load r.orchestrator path config with
    | (.ok handle, o) => (.ok handle, ⟨o, r.loaded ++ [handle], r.unloaded⟩)
    | (.error e, o) => (.error e, { r with orchestrator := o })
  unload r handle :=
    match orchestrator.unload r.orchestrator handle with
    | (.ok _, o) => (.ok (), ⟨o, r.loaded, r.unloaded ++ [handle]⟩)
    | (.error e, o) => (.error e, { r with orchestrator := o })
  hasBackend r := orchestrator.hasBackend r.orchestrator
  forwardPartial r handle input stage indexPos :=
    match orchestrator.forwardPartial r.orchestrator handle input stage indexPos with
    | (.ok output, o) => (.ok output, { r with orchestrator := o })
    | (.error e, o) => (.error e, { r with orchestrator := o })

/-- A call of the handler. -/
inductive HandlerCall
  | loadLayers (modelSource : String) (layerRange : Range) (totalLayers : ℕ)
  | forwardLayers (activationData : List UInt8) (shape : List ℕ) (dtype : UInt8) (indexPos : ℕ)
  | unloadLayers

namespace CliPipelineHandler

/-- The state behind a call. -/
def afterCall (orchestrator : Orchestrator O Handle) (s : HandlerState O Handle) :
    HandlerCall → HandlerState O Handle
  | .loadLayers modelSource layerRange totalLayers =>
      (loadLayers orchestrator s modelSource layerRange totalLayers).2
  | .forwardLayers activationData shape dtype indexPos =>
      (forwardLayers orchestrator s activationData shape dtype indexPos).2
  | .unloadLayers => (unloadLayers orchestrator s).2

/-- A handler in which nothing has been loaded yet, with its recorder. -/
def unused (o : O) : HandlerState (StageLedger O Handle) Handle := ⟨⟨o, [], []⟩, none⟩

/-- The state of the handler without the recorder. -/
def forget (s : HandlerState (StageLedger O Handle) Handle) : HandlerState O Handle :=
  ⟨s.orchestrator.orchestrator, s.state⟩

variable (orchestrator : Orchestrator O Handle) (s : HandlerState (StageLedger O Handle) Handle)

/-- The recorder changes nothing of what the handler does. -/
theorem forget_afterCall (call : HandlerCall) :
    forget (afterCall orchestrator.recorded s call) = afterCall orchestrator (forget s) call := by
  obtain ⟨r, state⟩ := s
  cases call with
  | loadLayers modelSource layerRange totalLayers =>
      simp only [afterCall, loadLayers, Orchestrator.recorded, forget]
      by_cases hexists : orchestrator.pathExists r.orchestrator modelSource
      · simp only [hexists]
        rcases orchestrator.load r.orchestrator modelSource
          ⟨4096, some ⟨layerRange, totalLayers⟩, true⟩ with ⟨_ | _, o⟩ <;> rfl
      · simp only [hexists]
        rfl
  | forwardLayers activationData shape dtype indexPos =>
      simp only [afterCall, forwardLayers, forget]
      cases state with
      | none => rfl
      | some stage =>
          simp only [forwardThrough, Orchestrator.recorded]
          by_cases hbackend : orchestrator.hasBackend r.orchestrator stage.handle
          · simp only [hbackend]
            rcases orchestrator.forwardPartial r.orchestrator stage.handle
              ⟨activationData, shape, dtypeOfTag dtype⟩ ⟨stage.layerRange, stage.totalLayers⟩
              indexPos with ⟨_ | _, o⟩ <;> rfl
          · simp only [hbackend]
            rfl
  | unloadLayers =>
      simp only [afterCall, unloadLayers, forget]
      cases state with
      | none => rfl
      | some stage =>
          simp only [Orchestrator.recorded]
          rcases orchestrator.unload r.orchestrator stage.handle with ⟨_ | _, o⟩ <;> rfl

/-! ## What is held -/

/-- The handle in the slot. -/
def held {P : Type*} (s : HandlerState P Handle) : List Handle :=
  (s.state.map PipelineState.handle).toList

/-- Each load that succeeded is matched by the slot or by an unload that succeeded. -/
def EachAccounted : Prop :=
  s.orchestrator.loaded.Perm (s.orchestrator.unloaded ++ held s)

/-- Every handle that a load gave out is in the slot, or has been unloaded. -/
def NoStageLeaked : Prop :=
  ∀ handle ∈ s.orchestrator.loaded,
    s.state.map PipelineState.handle = some handle ∨ handle ∈ s.orchestrator.unloaded

/-- A call loses no stage: nothing is loaded while there is one in the slot, and unloading
the one in the slot does not fail. -/
def KeepsTrack {P : Type*} (orchestrator : Orchestrator P Handle) (s : HandlerState P Handle) :
    HandlerCall → Prop
  | .loadLayers modelSource layerRange totalLayers =>
      s.state = none ∨ RefusesLoad orchestrator s modelSource layerRange totalLayers
  | .forwardLayers .. => True
  | .unloadLayers =>
      ∀ stage, s.state = some stage →
        (orchestrator.unload s.orchestrator stage.handle).1 = .ok ()

theorem EachAccounted.noStageLeaked {s : HandlerState (StageLedger O Handle) Handle}
    (h : EachAccounted s) : NoStageLeaked s := by
  intro handle hloaded
  rcases List.mem_append.mp (h.mem_iff.mp hloaded) with hunloaded | hheld
  · exact Or.inr hunloaded
  · exact Or.inl (Option.mem_toList.mp hheld)

theorem eachAccounted_unused (o : O) :
    EachAccounted (unused o : HandlerState (StageLedger O Handle) _) :=
  List.Perm.nil

/-! ## One call -/

variable {s}

/-- A load that is refused gives out no handle, and any other one puts its handle into the
slot. -/
theorem recorded_loadLayers (modelSource : String) (layerRange : Range) (totalLayers : ℕ) :
    let next := afterCall orchestrator.recorded s (.loadLayers modelSource layerRange totalLayers)
    (RefusesLoad orchestrator.recorded s modelSource layerRange totalLayers ∧
        next.orchestrator.loaded = s.orchestrator.loaded ∧
        next.orchestrator.unloaded = s.orchestrator.unloaded ∧ next.state = s.state) ∨
      (¬ RefusesLoad orchestrator.recorded s modelSource layerRange totalLayers ∧
        ∃ handle, next.orchestrator.loaded = s.orchestrator.loaded ++ [handle] ∧
          next.orchestrator.unloaded = s.orchestrator.unloaded ∧
          next.state = some ⟨handle, layerRange, totalLayers⟩) := by
  simp only [afterCall, loadLayers, RefusesLoad, Orchestrator.recorded]
  by_cases hexists : orchestrator.pathExists s.orchestrator.orchestrator modelSource
  · simp only [hexists]
    rcases orchestrator.load s.orchestrator.orchestrator modelSource
      ⟨4096, some ⟨layerRange, totalLayers⟩, true⟩ with ⟨e | handle, o⟩
    · exact Or.inl ⟨Or.inr ⟨e, rfl⟩, rfl, rfl, rfl⟩
    · refine Or.inr ⟨?_, handle, rfl, rfl, rfl⟩
      rintro (hmissing | ⟨e, herror⟩)
      · cases hmissing
      · cases herror
  · simp only [hexists]
    exact Or.inl ⟨Or.inl trivial, rfl, rfl, rfl⟩

/-- A forward pass loads and unloads nothing. -/
theorem recorded_forwardLayers (activationData : List UInt8) (shape : List ℕ) (dtype : UInt8)
    (indexPos : ℕ) :
    let next := afterCall orchestrator.recorded s
      (.forwardLayers activationData shape dtype indexPos)
    next.orchestrator.loaded = s.orchestrator.loaded ∧
      next.orchestrator.unloaded = s.orchestrator.unloaded ∧ next.state = s.state := by
  obtain ⟨r, state⟩ := s
  simp only [afterCall, forwardLayers]
  cases state with
  | none => exact ⟨rfl, rfl, rfl⟩
  | some stage =>
      simp only [forwardThrough, Orchestrator.recorded]
      by_cases hbackend : orchestrator.hasBackend r.orchestrator stage.handle
      · simp only [hbackend]
        rcases orchestrator.forwardPartial r.orchestrator stage.handle
          ⟨activationData, shape, dtypeOfTag dtype⟩ ⟨stage.layerRange, stage.totalLayers⟩
          indexPos with ⟨_ | _, o⟩ <;> exact ⟨rfl, rfl, rfl⟩
      · simp only [hbackend]
        exact ⟨rfl, rfl, rfl⟩

/-- Unloading empties the slot, and what was in it counts as unloaded just if the
orchestrator reports no error. -/
theorem recorded_unloadLayers :
    let next := afterCall orchestrator.recorded s .unloadLayers
    next.orchestrator.loaded = s.orchestrator.loaded ∧ next.state = none ∧
      (KeepsTrack orchestrator.recorded s .unloadLayers ∧
          next.orchestrator.unloaded = s.orchestrator.unloaded ++ held s ∨
        ¬ KeepsTrack orchestrator.recorded s .unloadLayers ∧ held s ≠ [] ∧
          next.orchestrator.unloaded = s.orchestrator.unloaded) := by
  obtain ⟨r, state⟩ := s
  simp only [afterCall, unloadLayers, KeepsTrack, held]
  cases state with
  | none =>
      refine ⟨rfl, rfl, Or.inl ⟨?_, (List.append_nil _).symm⟩⟩
      intro stage hstage
      cases hstage
  | some stage =>
      rcases hrun : orchestrator.unload r.orchestrator stage.handle with ⟨e | _, o⟩
      · have hfails : orchestrator.recorded.unload r stage.handle =
            (.error e, { r with orchestrator := o }) := by
          simp only [Orchestrator.recorded, hrun]
        simp only [hfails]
        refine ⟨trivial, trivial, Or.inr ⟨?_, List.cons_ne_nil _ _, trivial⟩⟩
        intro hkeeps
        have hok := hkeeps stage rfl
        rw [hfails] at hok
        cases hok
      · have hsucceeds : orchestrator.recorded.unload r stage.handle =
            (.ok (), ⟨o, r.loaded, r.unloaded ++ [stage.handle]⟩) := by
          simp only [Orchestrator.recorded, hrun]
        simp only [hsucceeds]
        refine ⟨trivial, trivial, Or.inl ⟨?_, rfl⟩⟩
        intro held hheld
        obtain rfl := Option.some.inj hheld
        rw [hsucceeds]

/-- **A call keeps every handle accounted for just if it loses no stage.** -/
theorem eachAccounted_afterCall_iff (h : EachAccounted s) (call : HandlerCall) :
    EachAccounted (afterCall orchestrator.recorded s call) ↔
      KeepsTrack orchestrator.recorded s call := by
  cases call with
  | loadLayers modelSource layerRange totalLayers =>
      rcases recorded_loadLayers orchestrator (s := s) modelSource layerRange totalLayers with
        ⟨hrefused, hloaded, hunloaded, hstate⟩ | ⟨hloads, handle, hloaded, hunloaded, hstate⟩
      · refine iff_of_true ?_ (Or.inr hrefused)
        rwa [EachAccounted, held, hloaded, hunloaded, hstate]
      · have hcount := h.length_eq
        rw [EachAccounted, held, hloaded, hunloaded, hstate]
        constructor
        · intro hnext
          have hnextCount := hnext.length_eq
          left
          cases hslot : s.state with
          | none => rfl
          | some stage =>
              -- the stage in the slot is loaded once, and matched by nothing any more
              simp [held, hslot] at hcount hnextCount
              omega
        · rintro (hempty | hrefused)
          · rw [EachAccounted, held, hempty] at h
            exact (h.trans (List.append_nil _ ▸ List.Perm.refl _)).append_right [handle]
          · exact absurd hrefused hloads
  | forwardLayers activationData shape dtype indexPos =>
      obtain ⟨hloaded, hunloaded, hstate⟩ :=
        recorded_forwardLayers orchestrator (s := s) activationData shape dtype indexPos
      refine iff_of_true ?_ trivial
      rwa [EachAccounted, held, hloaded, hunloaded, hstate]
  | unloadLayers =>
      obtain ⟨hloaded, hstate, ⟨hkeeps, hunloaded⟩ | ⟨hfails, hheld, hunloaded⟩⟩ :=
        recorded_unloadLayers orchestrator (s := s)
      · refine iff_of_true ?_ hkeeps
        rw [EachAccounted, held, hloaded, hunloaded, hstate]
        exact h.trans (List.append_nil _ ▸ List.Perm.refl _)
      · refine iff_of_false ?_ hfails
        rw [EachAccounted, held, hloaded, hunloaded, hstate]
        intro hnext
        have hcount := h.length_eq.symm.trans hnext.length_eq
        rw [List.length_append, List.length_append] at hcount
        exact hheld (List.length_eq_zero_iff.mp (Nat.add_left_cancel hcount))

/-! ## All calls -/

/-- **Accounted for throughout, exactly.** Over any calls of the handler, with whatever the
orchestrator answers, each load that succeeds is matched by the slot or by an unload that
succeeds, in every state reached, just if every load that succeeds finds the slot empty and
every unload of a stage succeeds. -/
theorem eachAccounted_throughout_iff (o : O) (calls : List HandlerCall) :
    (∀ before, before <+: calls →
        EachAccounted (exec (afterCall orchestrator.recorded) (unused o) before)) ↔
      ∀ before call, before ++ [call] <+: calls →
        KeepsTrack orchestrator.recorded (exec (afterCall orchestrator.recorded) (unused o) before)
          call := by
  have hnext : ∀ {s : HandlerState (StageLedger O Handle) Handle} {call : HandlerCall},
      EachAccounted s → (EachAccounted (afterCall orchestrator.recorded s call) ↔
        KeepsTrack orchestrator.recorded s call) :=
    fun h => eachAccounted_afterCall_iff orchestrator h _
  exact exec_invariant_iff (afterCall orchestrator.recorded) hnext (eachAccounted_unused o) calls

/-- **No stage is leaked while none is overwritten and no unload fails.** Over any calls of
the handler, with whatever the orchestrator answers, every handle that a load gave out is in
the slot or has been unloaded, in every state reached. -/
theorem no_stage_leaked (o : O) (calls : List HandlerCall)
    (htracks : ∀ before call, before ++ [call] <+: calls →
      KeepsTrack orchestrator.recorded (exec (afterCall orchestrator.recorded) (unused o) before)
        call) :
    ∀ before, before <+: calls →
      NoStageLeaked (exec (afterCall orchestrator.recorded) (unused o) before) := by
  intro before hbefore
  have haccounted := (eachAccounted_throughout_iff orchestrator o calls).mpr htracks
  exact (haccounted before hbefore).noStageLeaked

/-- An orchestrator that numbers the models it loads, and whose unloads succeed or all fail. -/
def numbering (unloads : Bool) : Orchestrator ℕ ℕ where
  pathExists _ _ := true
  load n _ _ := (.ok n, n + 1)
  unload n _ := (if unloads then .ok () else .error "engine is gone", n)
  hasBackend _ _ := true
  forwardPartial n _ input _ _ := (.ok input, n)

/-- A load of one layer of two. -/
def oneLayer (start : ℕ) : HandlerCall := .loadLayers "model.gguf" ⟨start, start + 1⟩ 2

theorem keepsTrack_load_unload : ∀ before call,
    before ++ [call] <+: [oneLayer 0, .unloadLayers] →
      KeepsTrack (numbering true).recorded
        (exec (afterCall (numbering true).recorded) (unused 7) before) call := by
  rintro before call ⟨later, hsplit⟩
  match before, hsplit with
  | [], hsplit =>
      obtain ⟨rfl, -⟩ := List.cons.inj hsplit
      exact Or.inl rfl
  | [first], hsplit =>
      obtain ⟨rfl, hsecond⟩ := List.cons.inj hsplit
      obtain ⟨rfl, -⟩ := List.cons.inj hsecond
      intro stage hstage
      rfl
  | first :: second :: rest, hsplit =>
      have hlength := congrArg List.length hsplit
      simp at hlength

theorem no_stage_leaked_load_unload :
    NoStageLeaked (exec (afterCall (numbering true).recorded) (unused 7)
      [oneLayer 0, .unloadLayers]) :=
  no_stage_leaked (numbering true) 7 [oneLayer 0, .unloadLayers] keepsTrack_load_unload
    _ (List.prefix_refl _)

/-- The first of two stages loaded one after the other is leaked, and so is a stage whose
unload fails. -/
theorem stage_leaked_by_reload_or_failed_unload :
    ¬ NoStageLeaked (exec (afterCall (numbering true).recorded) (unused 7)
        [oneLayer 0, oneLayer 1]) ∧
      ¬ NoStageLeaked (exec (afterCall (numbering false).recorded) (unused 7)
        [oneLayer 0, .unloadLayers]) := by
  constructor
  · intro hkept
    rcases hkept 7 List.mem_cons_self with hheld | hunloaded
    · cases hheld
    · cases hunloaded
  · intro hkept
    rcases hkept 7 List.mem_cons_self with hheld | hunloaded
    · cases hheld
    · cases hunloaded

end CliPipelineHandler

end HiveBear.Cli
