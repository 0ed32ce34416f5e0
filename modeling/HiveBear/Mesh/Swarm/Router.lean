/-
# The router's load counters

The router keeps a counter of active requests for each registered swarm. Registering a swarm
makes a counter at zero unless there is one, unregistering it removes the counter, and
starting or finishing a request on a swarm without a counter does nothing.

So the counter is right as long as no swarm is registered anew while requests that were
started on it before are still running, and as long as it does not run out of bits. A
request that outlives its swarm's registration is finished on a counter that never counted
it.

Calls are served one at a time. The queue of waiting requests is not modelled: nothing puts
a request into it.
-/

import HiveBear.Library.Run
import HiveBear.Mesh.Swarm.Basic

namespace HiveBear.Mesh

open LabelledRun

variable {F : Type*}

/-- What the router counts for a swarm. -/
structure SwarmLoad where
  activeRequests : UInt32
  tokensGeneratedTotal : UInt64

/-- The counters of a swarm without requests. -/
def SwarmLoad.new : SwarmLoad := ⟨0, 0⟩

/-- The swarms of each model, and the counters of each swarm. -/
structure SwarmRouter (F : Type*) where
  swarms : String → List (SwarmDefinition F)
  load : SwarmId → Option SwarmLoad

namespace SwarmRouter

/-- A router without swarms. -/
def new : SwarmRouter F := ⟨fun _ => [], fun _ => none⟩

/-- Register a swarm with the router. -/
def registerSwarm (router : SwarmRouter F) (swarm : SwarmDefinition F) : SwarmRouter F where
  load := Function.update router.load swarm.swarmId
    (some ((router.load swarm.swarmId).getD SwarmLoad.new))
  swarms := Function.update router.swarms swarm.modelId (router.swarms swarm.modelId ++ [swarm])

/-- Unregister a swarm. -/
def unregisterSwarm (router : SwarmRouter F) (swarmId : SwarmId) : SwarmRouter F where
  load := Function.update router.load swarmId none
  swarms modelId := (router.swarms modelId).filter fun swarm => swarm.swarmId ≠ swarmId

/-- Record that a request started on a swarm. -/
def requestStarted (router : SwarmRouter F) (swarmId : SwarmId) : SwarmRouter F :=
  match router.load swarmId with
  | some load =>
      { router with
        load := Function.update router.load swarmId
          (some { load with activeRequests := load.activeRequests + 1 }) }
  | none => router

/-- Record that a request finished on a swarm. The subtraction wraps. -/
def requestFinished (router : SwarmRouter F) (swarmId : SwarmId) (tokensGenerated : UInt32) :
    SwarmRouter F :=
  match router.load swarmId with
  | some load =>
      { router with
        load := Function.update router.load swarmId
          (some
            { load with
              activeRequests := load.activeRequests - 1
              tokensGeneratedTotal := load.tokensGeneratedTotal + tokensGenerated.toUInt64 }) }
  | none => router

/-- The number of active requests reported for a swarm. -/
def getLoad (router : SwarmRouter F) (swarmId : SwarmId) : Option UInt32 :=
  (router.load swarmId).map SwarmLoad.activeRequests

/-- Some model has a swarm with this identifier. -/
def Registered (router : SwarmRouter F) (swarmId : SwarmId) : Prop :=
  ∃ modelId, ∃ swarm ∈ router.swarms modelId, swarm.swarmId = swarmId

end SwarmRouter

/-- A call of the router. -/
inductive RouterCall (F : Type*)
  | registerSwarm (swarm : SwarmDefinition F)
  | unregisterSwarm (swarmId : SwarmId)
  | requestStarted (swarmId : SwarmId)
  | requestFinished (swarmId : SwarmId) (tokensGenerated : UInt32)

/-- The router behind a call. -/
def SwarmRouter.next (router : SwarmRouter F) : RouterCall F → SwarmRouter F
  | .registerSwarm swarm => router.registerSwarm swarm
  | .unregisterSwarm swarmId => router.unregisterSwarm swarmId
  | .requestStarted swarmId => router.requestStarted swarmId
  | .requestFinished swarmId tokensGenerated => router.requestFinished swarmId tokensGenerated

/-- The router behind these calls. -/
def afterCalls (calls : List (RouterCall F)) : SwarmRouter F :=
  exec SwarmRouter.next SwarmRouter.new calls

/-- By how much a call changes the number of requests running on a swarm. -/
def RouterCall.change (swarmId : SwarmId) : RouterCall F → ℤ
  | .requestStarted other => if other = swarmId then 1 else 0
  | .requestFinished other _ => if other = swarmId then -1 else 0
  | _ => 0

/-- The requests started on a swarm and not finished. -/
def outstanding (calls : List (RouterCall F)) (swarmId : SwarmId) : ℤ :=
  (calls.map (RouterCall.change swarmId)).sum

/-- Every request that finishes has been started before. -/
def Matched (calls : List (RouterCall F)) : Prop :=
  ∀ before swarmId tokensGenerated, before ++ [.requestFinished swarmId tokensGenerated] <+: calls →
    0 < outstanding before swarmId

/-- The load of every registered swarm is the number of its outstanding requests. -/
def LoadCounted (calls : List (RouterCall F)) : Prop :=
  ∀ swarmId, (afterCalls calls).Registered swarmId →
    ∃ load, (afterCalls calls).getLoad swarmId = some load ∧
      (load.toNat : ℤ) = outstanding calls swarmId

/-- What the counters should do in a run. -/
structure LoadExact (calls : List (RouterCall F)) : Prop where
  counted : ∀ before, before <+: calls → LoadCounted before
  no_wrap : ∀ before swarmId tokensGenerated,
    before ++ [.requestFinished swarmId tokensGenerated] <+: calls →
      (afterCalls before).getLoad swarmId ≠ some 0

/-- The call makes no new counter for a swarm with outstanding requests, and no counter run
out of bits. -/
def Undisturbed (before : List (RouterCall F)) : RouterCall F → Prop
  | .registerSwarm swarm =>
      (afterCalls before).Registered swarm.swarmId ∨ outstanding before swarm.swarmId = 0
  | .requestStarted swarmId =>
      (afterCalls before).Registered swarmId → outstanding before swarmId + 1 < 4294967296
  | _ => True

/-! ## One call -/

namespace SwarmRouter

variable (router : SwarmRouter F) {swarmId : SwarmId}

theorem getLoad_registerSwarm (swarm : SwarmDefinition F) :
    (router.registerSwarm swarm).getLoad =
      Function.update router.getLoad swarm.swarmId
        (some ((router.getLoad swarm.swarmId).getD 0)) := by
  have hcount : some ((router.getLoad swarm.swarmId).getD 0) =
      (some ((router.load swarm.swarmId).getD SwarmLoad.new)).map SwarmLoad.activeRequests := by
    rw [getLoad]
    cases router.load swarm.swarmId <;> rfl
  rw [hcount]
  funext other
  exact Function.apply_update (fun _ => Option.map SwarmLoad.activeRequests) router.load
    swarm.swarmId _ other

theorem getLoad_unregisterSwarm (swarmId : SwarmId) :
    (router.unregisterSwarm swarmId).getLoad = Function.update router.getLoad swarmId none := by
  funext other
  exact Function.apply_update (fun _ => Option.map SwarmLoad.activeRequests) router.load swarmId
    none other

/-- A counter that is there becomes another one. -/
theorem getLoad_update {load load' : SwarmLoad} (h : router.load swarmId = some load)
    {count : UInt32 → UInt32} (hcount : load'.activeRequests = count load.activeRequests) :
    SwarmRouter.getLoad { router with load := Function.update router.load swarmId (some load') } =
      Function.update router.getLoad swarmId ((router.getLoad swarmId).map count) := by
  funext other
  refine (Function.apply_update (fun _ => Option.map SwarmLoad.activeRequests) router.load swarmId
    (some load') other).trans ?_
  rw [getLoad, h, Option.map_some, Option.map_some, Option.map_some, hcount]
  rfl

/-- Without a counter there is nothing to change. -/
theorem getLoad_of_none (h : router.load swarmId = none) (count : UInt32 → UInt32) :
    router.getLoad =
      Function.update router.getLoad swarmId ((router.getLoad swarmId).map count) := by
  refine (Function.update_eq_self_iff.mpr ?_).symm
  rw [getLoad, h]
  rfl

theorem getLoad_requestStarted (swarmId : SwarmId) :
    (router.requestStarted swarmId).getLoad =
      Function.update router.getLoad swarmId ((router.getLoad swarmId).map (· + 1)) := by
  rw [requestStarted]
  split
  · rename_i load hload
    exact getLoad_update router hload rfl
  · rename_i hnone
    exact getLoad_of_none router hnone _

theorem getLoad_requestFinished (swarmId : SwarmId) (tokensGenerated : UInt32) :
    (router.requestFinished swarmId tokensGenerated).getLoad =
      Function.update router.getLoad swarmId ((router.getLoad swarmId).map (· - 1)) := by
  rw [requestFinished]
  split
  · rename_i load hload
    exact getLoad_update router hload rfl
  · rename_i hnone
    exact getLoad_of_none router hnone _

theorem swarms_requestStarted (swarmId : SwarmId) :
    (router.requestStarted swarmId).swarms = router.swarms := by
  rw [requestStarted]
  split <;> rfl

theorem swarms_requestFinished (swarmId : SwarmId) (tokensGenerated : UInt32) :
    (router.requestFinished swarmId tokensGenerated).swarms = router.swarms := by
  rw [requestFinished]
  split <;> rfl

theorem mem_swarms_registerSwarm {swarm other : SwarmDefinition F} {modelId : String} :
    other ∈ (router.registerSwarm swarm).swarms modelId ↔
      other ∈ router.swarms modelId ∨ modelId = swarm.modelId ∧ other = swarm := by
  change other ∈ Function.update router.swarms swarm.modelId _ modelId ↔ _
  by_cases hmodel : modelId = swarm.modelId
  · subst hmodel
    simp
  · simp [hmodel]

theorem registered_registerSwarm (swarm : SwarmDefinition F) :
    (router.registerSwarm swarm).Registered swarmId ↔
      swarmId = swarm.swarmId ∨ router.Registered swarmId := by
  simp only [Registered, mem_swarms_registerSwarm]
  constructor
  · rintro ⟨modelId, other, hold | ⟨-, rfl⟩, rfl⟩
    · exact Or.inr ⟨modelId, other, hold, rfl⟩
    · exact Or.inl rfl
  · rintro (rfl | ⟨modelId, other, hold, rfl⟩)
    · exact ⟨swarm.modelId, swarm, Or.inr ⟨rfl, rfl⟩, rfl⟩
    · exact ⟨modelId, other, Or.inl hold, rfl⟩

theorem registered_unregisterSwarm (gone : SwarmId) :
    (router.unregisterSwarm gone).Registered swarmId ↔
      swarmId ≠ gone ∧ router.Registered swarmId := by
  constructor
  · rintro ⟨modelId, swarm, hswarm, rfl⟩
    obtain ⟨hswarm, hne⟩ := List.mem_filter.mp hswarm
    exact ⟨of_decide_eq_true hne, modelId, swarm, hswarm, rfl⟩
  · rintro ⟨hne, modelId, swarm, hswarm, rfl⟩
    exact ⟨modelId, swarm, List.mem_filter.mpr ⟨hswarm, decide_eq_true hne⟩, rfl⟩

end SwarmRouter

theorem afterCalls_snoc (calls : List (RouterCall F)) (call : RouterCall F) :
    afterCalls (calls ++ [call]) = (afterCalls calls).next call :=
  exec_snoc SwarmRouter.next SwarmRouter.new calls call

theorem outstanding_snoc (calls : List (RouterCall F)) (call : RouterCall F) (swarmId : SwarmId) :
    outstanding (calls ++ [call]) swarmId = outstanding calls swarmId + call.change swarmId := by
  simp [outstanding]

/-- Just the registered swarms have counters. -/
theorem registered_iff (calls : List (RouterCall F)) (swarmId : SwarmId) :
    (afterCalls calls).Registered swarmId ↔
      ∃ load, (afterCalls calls).getLoad swarmId = some load := by
  induction calls using List.reverseRecOn with
  | nil =>
      refine iff_of_false ?_ ?_
      · rintro ⟨modelId, swarm, hswarm, -⟩
        cases hswarm
      · rintro ⟨load, hload⟩
        cases hload
  | append_singleton calls call ih =>
      rw [afterCalls_snoc]
      cases call with
      | registerSwarm swarm =>
          rw [SwarmRouter.next, SwarmRouter.registered_registerSwarm, ih,
            SwarmRouter.getLoad_registerSwarm]
          by_cases hsame : swarmId = swarm.swarmId
          · subst hsame
            simp
          · simp [hsame]
      | unregisterSwarm gone =>
          rw [SwarmRouter.next, SwarmRouter.registered_unregisterSwarm, ih,
            SwarmRouter.getLoad_unregisterSwarm]
          by_cases hsame : swarmId = gone
          · subst hsame
            simp
          · simp [hsame]
      | requestStarted other =>
          have hswarms := (afterCalls calls).swarms_requestStarted other
          rw [SwarmRouter.next, SwarmRouter.Registered, hswarms, ← SwarmRouter.Registered, ih,
            SwarmRouter.getLoad_requestStarted]
          by_cases hsame : swarmId = other
          · subst hsame
            simp
          · simp [hsame]
      | requestFinished other tokensGenerated =>
          have hswarms := (afterCalls calls).swarms_requestFinished other tokensGenerated
          rw [SwarmRouter.next, SwarmRouter.Registered, hswarms, ← SwarmRouter.Registered, ih,
            SwarmRouter.getLoad_requestFinished]
          by_cases hsame : swarmId = other
          · subst hsame
            simp
          · simp [hsame]

/-- The counters agree with these numbers. -/
def Counted (counts : SwarmId → Option UInt32) (running : SwarmId → ℤ) : Prop :=
  ∀ swarmId count, counts swarmId = some count → (count.toNat : ℤ) = running swarmId

theorem loadCounted_iff {calls : List (RouterCall F)} :
    LoadCounted calls ↔ Counted (afterCalls calls).getLoad (outstanding calls) := by
  constructor
  · intro h swarmId count hcount
    obtain ⟨load, hload, hrunning⟩ := h swarmId ((registered_iff calls swarmId).mpr ⟨count, hcount⟩)
    rw [hload] at hcount
    obtain rfl := Option.some.inj hcount
    exact hrunning
  · intro h swarmId hregistered
    obtain ⟨load, hload⟩ := (registered_iff calls swarmId).mp hregistered
    exact ⟨load, hload, h swarmId load hload⟩

/-- Counters that agree, all but one of which stay as they are. -/
theorem counted_update {counts : SwarmId → Option UInt32} {running running' : SwarmId → ℤ}
    (h : Counted counts running) {swarmId : SwarmId} {moved : Option UInt32}
    (hothers : ∀ other, other ≠ swarmId → running' other = running other) :
    Counted (Function.update counts swarmId moved) running' ↔
      ∀ count, moved = some count → (count.toNat : ℤ) = running' swarmId := by
  constructor
  · intro hcounted count hcount
    exact hcounted swarmId count (by rw [Function.update_self, hcount])
  · intro hmoved other count hcount
    by_cases hsame : other = swarmId
    · subst hsame
      rw [Function.update_self] at hcount
      exact hmoved count hcount
    · rw [Function.update_of_ne hsame] at hcount
      rw [hothers other hsame]
      exact h other count hcount

/-- One more fits if the number does. -/
theorem toNat_add_one_iff {count : UInt32} {n : ℤ} (h : (count.toNat : ℤ) = n) :
    ((count + 1).toNat : ℤ) = n + 1 ↔ n + 1 < 4294967296 := by
  have hlt := count.toNat_lt
  rw [UInt32.toNat_add, ← h]
  change ((count.toNat + 1) % 4294967296 : ℤ) = _ ↔ _
  omega

/-- One less is there unless there is nothing. -/
theorem toNat_sub_one_iff {count : UInt32} {n : ℤ} (h : (count.toNat : ℤ) = n) :
    ((count - 1).toNat : ℤ) = n + -1 ↔ n ≠ 0 := by
  have hlt := count.toNat_lt
  rw [UInt32.toNat_sub, ← h]
  change ((4294967296 - 1 + count.toNat : ℕ) % 4294967296 : ℤ) = _ ↔ _
  omega

/-- A finished request was counted, if its swarm is registered. -/
def Counts (before : List (RouterCall F)) : RouterCall F → Prop
  | .requestFinished swarmId _ =>
      (afterCalls before).Registered swarmId → outstanding before swarmId ≠ 0
  | _ => True

/-- When a call keeps the counters right. -/
theorem loadCounted_snoc {before : List (RouterCall F)} {call : RouterCall F}
    (h : LoadCounted before) :
    LoadCounted (before ++ [call]) ↔ Undisturbed before call ∧ Counts before call := by
  rw [loadCounted_iff] at h ⊢
  have hothers : ∀ {swarmId}, (∀ other, other ≠ swarmId → call.change other = 0) →
      ∀ other, other ≠ swarmId → outstanding (before ++ [call]) other = outstanding before other := by
    intro swarmId hchange other hother
    rw [outstanding_snoc, hchange other hother, add_zero]
  rw [afterCalls_snoc]
  cases call with
  | registerSwarm swarm =>
      have hstill : RouterCall.change swarm.swarmId (.registerSwarm swarm) = 0 := rfl
      rw [SwarmRouter.next, SwarmRouter.getLoad_registerSwarm,
        counted_update h (hothers fun _ _ => rfl), outstanding_snoc, hstill, add_zero]
      simp only [Undisturbed, Counts, and_true, registered_iff]
      cases hload : (afterCalls before).getLoad swarm.swarmId with
      | none => simp [eq_comm]
      | some count => simp [h swarm.swarmId count hload]
  | unregisterSwarm gone =>
      rw [SwarmRouter.next, SwarmRouter.getLoad_unregisterSwarm,
        counted_update h (hothers fun _ _ => rfl)]
      simp [Undisturbed, Counts]
  | requestStarted swarmId =>
      have hchange : ∀ other, other ≠ swarmId →
          RouterCall.change other (.requestStarted swarmId : RouterCall F) = 0 :=
        fun other hother => if_neg hother.symm
      rw [SwarmRouter.next, SwarmRouter.getLoad_requestStarted, counted_update h (hothers hchange),
        outstanding_snoc, RouterCall.change, if_pos rfl]
      simp only [Undisturbed, Counts, and_true, registered_iff]
      cases hload : (afterCalls before).getLoad swarmId with
      | none => simp
      | some count => simpa using toNat_add_one_iff (h swarmId count hload)
  | requestFinished swarmId tokensGenerated =>
      have hchange : ∀ other, other ≠ swarmId →
          RouterCall.change other (.requestFinished swarmId tokensGenerated : RouterCall F) = 0 :=
        fun other hother => if_neg hother.symm
      rw [SwarmRouter.next, SwarmRouter.getLoad_requestFinished,
        counted_update h (hothers hchange), outstanding_snoc, RouterCall.change, if_pos rfl]
      simp only [Undisturbed, Counts, true_and, registered_iff]
      cases hload : (afterCalls before).getLoad swarmId with
      | none => simp
      | some count => simpa using toNat_sub_one_iff (h swarmId count hload)

/-- **The counters are exact if and only if no call disturbs them**: no swarm is registered
anew while requests are outstanding on it, and no counter runs out of bits. -/
theorem load_exact_iff {calls : List (RouterCall F)} (h : Matched calls) :
    LoadExact calls ↔ ∀ before call, before ++ [call] <+: calls → Undisturbed before call := by
  have hstart : LoadCounted ([] : List (RouterCall F)) := by
    rintro swarmId ⟨modelId, swarm, hswarm, -⟩
    cases hswarm
  have hcounted := @history_invariant_iff _ LoadCounted
    (fun before call => Undisturbed before call ∧ Counts before call) hstart loadCounted_snoc calls
  constructor
  · intro hexact before call hpart
    exact (hcounted.mp hexact.counted before call hpart).1
  · intro hundisturbed
    have hcounts : ∀ before call, before ++ [call] <+: calls → Counts before call := by
      intro before call hpart
      cases call with
      | requestFinished swarmId tokensGenerated =>
          intro _
          exact (h before swarmId tokensGenerated hpart).ne'
      | _ => trivial
    have hall := hcounted.mpr fun before call hpart =>
      ⟨hundisturbed before call hpart, hcounts before call hpart⟩
    refine ⟨hall, ?_⟩
    intro before swarmId tokensGenerated hpart hzero
    have hbefore := loadCounted_iff.mp
      (hall before ((List.prefix_append before [_]).trans hpart))
    have hnone := hbefore swarmId 0 hzero
    have hsome := h before swarmId tokensGenerated hpart
    rw [← hnone] at hsome
    exact absurd hsome (by decide)

/-- A run whose last call finishes its only finished request. -/
theorem matched_of_last {calls : List (RouterCall F)} {swarmId : SwarmId} {tokens : UInt32}
    (hnone : ∀ other tokens, .requestFinished other tokens ∉ calls)
    (h : 0 < outstanding calls swarmId) :
    Matched (calls ++ [.requestFinished swarmId tokens]) := by
  intro before other tokens' hpart
  rcases append_singleton_prefix_iff.mp hpart with ⟨rfl, hlast⟩ | hearlier
  · obtain ⟨rfl, -⟩ := RouterCall.requestFinished.inj hlast
    exact h
  · exact absurd (hearlier.mem (List.mem_append_right _ (List.mem_singleton.mpr rfl)))
      (hnone other tokens')

/-- A swarm without members. -/
def emptySwarm : SwarmDefinition ℚ := SwarmDefinition.new ⟨0⟩ "model"

/-- One request, started and finished while its swarm is registered. -/
theorem load_exact_of_one_request :
    LoadExact ([.registerSwarm emptySwarm, .requestStarted ⟨0⟩] ++ [.requestFinished ⟨0⟩ 5]) := by
  refine (load_exact_iff (matched_of_last (by simp) (by decide))).mpr ?_
  intro before call hpart
  rcases append_singleton_prefix_iff.mp hpart with ⟨-, rfl⟩ | hpart
  · trivial
  have hfirst : before ++ [call] <+: [] ++ [.registerSwarm emptySwarm] ++ [.requestStarted ⟨0⟩] :=
    hpart
  rcases append_singleton_prefix_iff.mp hfirst with ⟨rfl, rfl⟩ | hfirst
  · exact fun _ => by decide
  rcases append_singleton_prefix_iff.mp hfirst with ⟨rfl, rfl⟩ | hnone
  · exact Or.inr rfl
  · exact absurd hnone (by simp)

/-- A request that outlives the registration of its swarm: it is finished on the counter of
the next registration, which wraps below zero. -/
theorem load_of_straddling_request :
    Matched ([.registerSwarm emptySwarm, .requestStarted ⟨0⟩, .unregisterSwarm ⟨0⟩,
        .registerSwarm emptySwarm] ++ [.requestFinished ⟨0⟩ 5]) ∧
      ¬ LoadExact ([.registerSwarm emptySwarm, .requestStarted ⟨0⟩, .unregisterSwarm ⟨0⟩,
        .registerSwarm emptySwarm] ++ [.requestFinished ⟨0⟩ 5]) := by
  refine ⟨matched_of_last (by simp) (by decide), ?_⟩
  intro hexact
  exact hexact.no_wrap _ ⟨0⟩ 5 (List.prefix_refl _) rfl

end HiveBear.Mesh
