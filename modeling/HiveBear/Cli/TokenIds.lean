/-
# Token ids on their way to the first stage

The initiator writes token ids as words of four bytes and hands them to the pipeline handler
with the dtype tag 0. The CLI's handler takes that tag for F32, and the Candle backend reads
the four bytes as a float and converts the float to an integer. The id that is embedded is the
integer of a float with the id's bits, which is the id only if it is zero.

The model behind the backend is a parameter; what is embedded is recorded beside its state.
-/

import HiveBear.Cli.PipelineHandler
import HiveBear.Inference.HalfDecoder
import HiveBear.Library.BinaryFormat
import HiveBear.Library.LittleEndian
import HiveBear.Mesh.Pipeline.StreamTokens

namespace HiveBear.Cli

open BinaryFormat LittleEndian Mesh

/-! ## The Candle backend -/

/-- What the backend's models do, over a state that the backend is part of. -/
structure CandleOps (M Handle X : Type*) where
  getPipelineModel : M → Handle → Except String Unit
  /-- The tensor of these floats, given by their bits, in a shape that fits them. -/
  tensor : List UInt32 → List ℕ → X
  /-- The error for floats that do not fit a shape. -/
  fromVecError : List UInt32 → List ℕ → String
  embed : M → Handle → List UInt32 → Except String X
  forwardBlocks : M → Handle → X → ℕ → Except String X × M
  projectToLogits : M → Handle → X → Except String X
  tensorToActivation : X → Except String ActivationData

/-- The bits of the floats in an activation. -/
def activationFloats (act : ActivationData) : List UInt32 :=
  match act.dtype with
  | .f32 => words32 act.data
  | .f16 => (words16 act.data).map Inference.f16ToF32
  | .bf16 => (words16 act.data).map fun bits => bits.toUInt32 <<< (16 : UInt32)

/-- The conversion of a float, given by its bits, to an unsigned integer. -/
def floatAsU32 (bits : UInt32) : UInt32 :=
  UInt32.ofNat ((single.value bits.toNat).saturate 4294967295)

/-- Extract token ids from an activation that contains packed floats. -/
def tensorToU32Ids (act : ActivationData) : Except String (List UInt32) :=
  match act.dtype with
  | .f32 => .ok ((words32 act.data).map floatAsU32)
  | _ => .error "Token IDs must be F32-encoded"

namespace CandleOps

variable {M Handle X : Type*} (ops : CandleOps M Handle X)

/-- The tensor of an activation. Its floats have to fill its shape. -/
def activationToTensor (act : ActivationData) : Except String X :=
  if (activationFloats act).length = act.shape.prod then
    .ok (ops.tensor (activationFloats act) act.shape)
  else .error s!"from_vec: {ops.fromVecError (activationFloats act) act.shape}"

/-- The blocks of the stage, and the projection behind the last of them. -/
def forwardStage (m : M) (handle : Handle) (stage : PipelineStageConfig) (indexPos : ℕ) (x : X) :
    Except String ActivationData × M :=
  match ops.forwardBlocks m handle x indexPos with
  | (.error e, m) => (.error s!"Forward blocks: {e}", m)
  | (.ok x, m) =>
      if stage.layerRange.stop = stage.totalLayers then
        match ops.projectToLogits m handle x with
        | .error e => (.error s!"Project to logits: {e}", m)
        | .ok logits => (ops.tensorToActivation logits, m)
      else (ops.tensorToActivation x, m)

/-- The first stage is given something in the shape of token ids. -/
def TakesTokenIds (input : ActivationData) (stage : PipelineStageConfig) : Prop :=
  stage.layerRange.start = 0 ∧ input.shape.length = 2 ∧ input.shape[1]? = some 1

instance (input : ActivationData) (stage : PipelineStageConfig) :
    Decidable (TakesTokenIds input stage) := inferInstanceAs (Decidable (_ ∧ _ ∧ _))

/-- A partial forward pass, and the ids that it embeds. -/
def forwardPartial (m : M) (handle : Handle) (input : ActivationData)
    (stage : PipelineStageConfig) (indexPos : ℕ) :
    (Except String ActivationData × M) × List (List UInt32) :=
  match ops.getPipelineModel m handle with
  | .error e => ((.error e, m), [])
  | .ok _ =>
      match ops.activationToTensor input with
      | .error e => ((.error e, m), [])
      | .ok x =>
          if TakesTokenIds input stage then
            match tensorToU32Ids input with
            | .error e => ((.error e, m), [])
            | .ok tokenIds =>
                match ops.embed m handle tokenIds with
                | .error e => ((.error s!"Embed: {e}", m), [tokenIds])
                | .ok x => (ops.forwardStage m handle stage indexPos x, [tokenIds])
          else (ops.forwardStage m handle stage indexPos x, [])

end CandleOps

/-- The orchestrator's state, which the backend is part of, and the ids embedded so far. -/
structure Recorded (O : Type*) where
  orchestrator : O
  embedded : List (List UInt32)

/-- An orchestrator whose backend is Candle. -/
def candleOrchestrator {O Handle X : Type*} (others : Orchestrator O Handle)
    (ops : CandleOps O Handle X) : Orchestrator (Recorded O) Handle where
  pathExists r path := others.pathExists r.orchestrator path
  load r path config :=
    let loaded := others.load r.orchestrator path config
    (loaded.1, { r with orchestrator := loaded.2 })
  unload r handle :=
    let unloaded := others.unload r.orchestrator handle
    (unloaded.1, { r with orchestrator := unloaded.2 })
  hasBackend r handle := others.hasBackend r.orchestrator handle
  forwardPartial r handle input stage indexPos :=
    let result := ops.forwardPartial r.orchestrator handle input stage indexPos
    (result.1.1, ⟨result.1.2, r.embedded ++ result.2⟩)

/-- The handler holds a stage that starts at layer 0, and its model is loaded. -/
def HoldsFirstStage {O Handle X : Type*} (others : Orchestrator O Handle)
    (ops : CandleOps O Handle X) (s : HandlerState (Recorded O) Handle) : Prop :=
  ∃ stage, s.state = some stage ∧ stage.layerRange.start = 0 ∧
    others.hasBackend s.orchestrator.orchestrator stage.handle = true ∧
    ops.getPipelineModel s.orchestrator.orchestrator stage.handle = .ok ()

/-! ## What is embedded -/

/-- The bytes and the shape in which the initiator passes ids. -/
def encodeIds (ids : List UInt32) : List UInt8 × List ℕ :=
  ((ids.map UInt32.toNat).flatMap toLeBytes, [ids.length, 1])

theorem toLeBytes_toNat (id : UInt32) : toLeBytes id.toNat = bytes32 id := by
  simp [toLeBytes, bytes32, toBytes, Nat.div_div_eq_div_mul]

theorem words32_encodeIds (ids : List UInt32) : words32 (encodeIds ids).1 = ids := by
  have hbytes : (encodeIds ids).1 = ids.flatMap bytes32 := by
    rw [encodeIds, List.flatMap_map]
    exact List.flatMap_congr fun id _ => toLeBytes_toNat id
  rw [hbytes, words32_flatMap]

/-- The only id that is the integer of its float is zero. -/
theorem floatAsU32_eq_self_iff {id : UInt32} : floatAsU32 id = id ↔ id = 0 := by
  have hword : id.toNat < 2 ^ 32 := id.toNat_lt
  have hbound : (single.value id.toNat).saturate 4294967295 < 2 ^ 32 :=
    (Value.saturate_le 4294967295 _).trans_lt (by decide)
  rw [← UInt32.toNat_inj, floatAsU32, UInt32.toNat_ofNat', Nat.mod_eq_of_lt hbound,
    saturate_single_eq_self_iff hword, ← UInt32.toNat_inj]
  rfl

theorem map_floatAsU32_eq_iff {ids : List UInt32} :
    ids.map floatAsU32 = ids ↔ ∀ id ∈ ids, id = 0 := by
  have hmap : ids.map floatAsU32 = ids ↔ ids.map floatAsU32 = ids.map fun id => id := by
    rw [List.map_id']
  rw [hmap, List.map_inj_left]
  exact forall₂_congr fun id _ => floatAsU32_eq_self_iff

section Handler

variable {O Handle X : Type*} (others : Orchestrator O Handle) (ops : CandleOps O Handle X)

/-- What the handler leaves the orchestrator in. -/
theorem orchestrator_forwardThrough {P : Type*} (orchestrator : Orchestrator P Handle)
    (s : HandlerState P Handle) (stage : PipelineState Handle) (data : List UInt8) (shape : List ℕ)
    (dtype : UInt8) (indexPos : ℕ)
    (h : orchestrator.hasBackend s.orchestrator stage.handle = true) :
    (CliPipelineHandler.forwardThrough orchestrator s stage data shape dtype indexPos).2.orchestrator =
      (orchestrator.forwardPartial s.orchestrator stage.handle
        ⟨data, shape, CliPipelineHandler.dtypeOfTag dtype⟩ ⟨stage.layerRange, stage.totalLayers⟩
        indexPos).2 := by
  rw [CliPipelineHandler.forwardThrough]
  simp only [h, Bool.not_true, Bool.false_eq_true, if_false]
  split <;> rename_i hresult <;> rw [hresult]

/-- The first stage embeds the integers of the floats with these bits. -/
theorem embedded_forwardPartial {m : O} {handle : Handle} {stage : PipelineStageConfig}
    (hmodel : ops.getPipelineModel m handle = .ok ()) (hfirst : stage.layerRange.start = 0)
    (ids : List UInt32) (indexPos : ℕ) :
    (ops.forwardPartial m handle ⟨(encodeIds ids).1, (encodeIds ids).2, .f32⟩ stage indexPos).2 =
      [ids.map floatAsU32] := by
  have hfits : ops.activationToTensor ⟨(encodeIds ids).1, (encodeIds ids).2, .f32⟩ =
      .ok (ops.tensor ids (encodeIds ids).2) := by
    rw [CandleOps.activationToTensor, activationFloats]
    dsimp only
    rw [words32_encodeIds]
    exact if_pos (by simp [encodeIds])
  have htakes : CandleOps.TakesTokenIds ⟨(encodeIds ids).1, (encodeIds ids).2, .f32⟩ stage :=
    ⟨hfirst, rfl, rfl⟩
  have hids : tensorToU32Ids ⟨(encodeIds ids).1, (encodeIds ids).2, .f32⟩ =
      .ok (ids.map floatAsU32) := by
    rw [tensorToU32Ids]
    dsimp only
    rw [words32_encodeIds]
  rw [CandleOps.forwardPartial, hmodel, hfits]
  dsimp only
  rw [if_pos htakes, hids]
  dsimp only
  split <;> rfl

/-- What the first stage embeds for encoded ids. -/
theorem embedded_forwardLayers {s : HandlerState (Recorded O) Handle}
    (h : HoldsFirstStage others ops s) (ids : List UInt32) (indexPos : ℕ) :
    (CliPipelineHandler.forwardLayers (candleOrchestrator others ops) s (encodeIds ids).1
      (encodeIds ids).2 0 indexPos).2.orchestrator.embedded =
        s.orchestrator.embedded ++ [ids.map floatAsU32] := by
  obtain ⟨stage, hslot, hfirst, hbackend, hmodel⟩ := h
  rw [CliPipelineHandler.forwardLayers, hslot]
  dsimp only
  rw [orchestrator_forwardThrough _ _ _ _ _ _ _ hbackend]
  change s.orchestrator.embedded ++ _ = _
  congr 1
  exact embedded_forwardPartial ops hmodel hfirst ids indexPos

end Handler

/-! ## What the initiator passes -/

section Stream

variable {F H : Type*} {initiator : PipelineInitiator F} {handler : MeshPipelineHandler H}
  {environment : StreamEnvironment} {firstWorker : NodeId} {data : List UInt8} {shape : List ℕ}
  {indexPos : ℕ}

/-- The encoding of a number as an id takes its lowest 32 bits. -/
theorem encodeIds_ofNat (n : ℕ) : encodeIds [UInt32.ofNat n] = (toLeBytes n, [1, 1]) := by
  have hbytes : toLeBytes (UInt32.ofNat n).toNat = toLeBytes n := by
    rw [UInt32.toNat_ofNat', toLeBytes, toLeBytes]
    simp only [List.cons.injEq, and_true, ← UInt8.toNat_inj, UInt8.toNat_ofNat']
    refine ⟨?_, ?_, ?_, ?_⟩ <;> omega
  rw [encodeIds, List.map_singleton, List.flatMap_singleton, hbytes, List.length_singleton]

/-- A fed token is passed as one id. -/
theorem forward_of_mem_feedToken {handlerState : H} {position tokenId : ℕ}
    (h : .forward data shape 0 indexPos ∈
      (initiator.feedToken handler environment firstWorker handlerState position tokenId).1) :
    (data, shape) = encodeIds [UInt32.ofNat tokenId] := by
  have hembed : StreamAction.forward data shape 0 indexPos =
      .forward (toLeBytes tokenId) [1, 1] 0 (position + 1) := by
    rw [PipelineInitiator.feedToken] at h
    dsimp only at h
    split at h
    · simpa using h
    · split at h
      · split_ifs at h <;> simpa using h
      · split_ifs at h <;> simpa using h
  obtain ⟨rfl, rfl, -, -⟩ := StreamAction.forward.inj hembed
  exact (encodeIds_ofNat tokenId).symm

/-- In a turn of the loop, too, ids are passed one at a time. -/
theorem forward_of_mem_generateToken {handlerState : H} {position : ℕ} {logitsData : List UInt8}
    (h : .forward data shape 0 indexPos ∈
      (initiator.generateToken handler environment firstWorker handlerState position logitsData).1) :
    ∃ id, (data, shape) = encodeIds [id] := by
  rw [PipelineInitiator.generateToken] at h
  dsimp only at h
  split at h
  · simp at h
  · split_ifs at h
    · simp at h
    · simp at h
    · simp at h
    · rw [List.mem_cons, List.mem_cons] at h
      rcases h with hsample | hyield | hfed
      · cases hsample
      · cases hyield
      · exact ⟨_, forward_of_mem_feedToken hfed⟩

theorem forward_notMem_releaseActions :
    .forward data shape 0 indexPos ∉ initiator.releaseActions := by
  rw [PipelineInitiator.releaseActions, List.mem_map]
  rintro ⟨envelope, -, hsend⟩
  cases hsend

theorem forward_of_mem_generate {maxTokens position : ℕ} {handlerState : H}
    {received : List (Except MeshError Envelope)}
    (h : .forward data shape 0 indexPos ∈ PipelineInitiator.generate initiator handler environment
      firstWorker maxTokens position handlerState received) :
    ∃ id, (data, shape) = encodeIds [id] := by
  fun_induction PipelineInitiator.generate initiator handler environment firstWorker maxTokens
    position handlerState received with
  | case2 => cases h
  | case1 | case3 =>
      rcases List.mem_cons.mp h with hclear | hrelease
      · cases hclear
      · exact absurd hrelease forward_notMem_releaseActions
  | case4 =>
      rename_i ih
      rcases List.mem_append.mp h with hturn | hlater
      · exact forward_of_mem_generateToken hturn
      · exact ih hlater
  | case5 =>
      rcases List.mem_append.mp h with hturn | hend
      · exact forward_of_mem_generateToken hturn
      · rcases List.mem_cons.mp hend with hclear | hrelease
        · cases hclear
        · exact absurd hrelease forward_notMem_releaseActions
  | case6 => exact forward_of_mem_generateToken h
  | case7 =>
      rename_i ih
      exact ih h
  | case8 =>
      rcases List.mem_cons.mp h with hyield | hrelease
      · cases hyield
      · exact absurd hrelease forward_notMem_releaseActions
  | case9 => cases List.mem_singleton.mp h
  | case10 =>
      rename_i ih
      exact ih h

/-- All ids that a stream passes are the prompt's, or one at a time. -/
theorem forward_of_mem_streamTokens {handlerState : H} {promptIds : List UInt32} {maxTokens : ℕ}
    {received : List (Except MeshError Envelope)}
    (h : .forward data shape 0 indexPos ∈ initiator.streamTokens handler environment handlerState
      (promptIds.map UInt32.toNat) maxTokens received) :
    ∃ ids, (data, shape) = encodeIds ids ∧ (ids = promptIds ∨ ∃ id, ids = [id]) := by
  have hprompt : ∀ {pos}, StreamAction.forward data shape 0 indexPos =
      .forward ((promptIds.map UInt32.toNat).flatMap toLeBytes)
        [(promptIds.map UInt32.toNat).length, 1] 0 pos →
      ∃ ids, (data, shape) = encodeIds ids ∧ (ids = promptIds ∨ ∃ id, ids = [id]) := by
    intro pos hforward
    obtain ⟨rfl, rfl, -, -⟩ := StreamAction.forward.inj hforward
    exact ⟨promptIds, by rw [encodeIds, List.length_map], Or.inl rfl⟩
  rw [PipelineInitiator.streamTokens] at h
  split at h
  · cases List.mem_singleton.mp h
  · dsimp only at h
    split at h
    · rcases List.mem_cons.mp h with hembed | hyield
      · exact hprompt hembed
      · cases List.mem_singleton.mp hyield
    · split at h
      · rcases List.mem_cons.mp h with hembed | hlater
        · exact hprompt hembed
        · simp at hlater
      · rcases List.mem_cons.mp h with hembed | hlater
        · exact hprompt hembed
        · rcases List.mem_cons.mp hlater with hsent | hgenerated
          · cases hsent
          · obtain ⟨id, hid⟩ := forward_of_mem_generate hgenerated
            exact ⟨[id], hid, Or.inr ⟨id, rfl⟩⟩

end Stream

/-- **Token ids survive on their way to the first stage if and only if they are all zero.** A
stream passes its ids in one encoding, and of ids in this encoding a stage that starts at layer
0 embeds others, unless they are zeros. -/
theorem token_ids_survive_iff {F O Handle X : Type*} (others : Orchestrator O Handle)
    (ops : CandleOps O Handle X) {s : HandlerState (Recorded O) Handle}
    (h : HoldsFirstStage others ops s) (initiator : PipelineInitiator F)
    (environment : StreamEnvironment) (promptIds : List UInt32) (maxTokens : ℕ)
    (received : List (Except MeshError Envelope)) :
    (∀ data shape indexPos, .forward data shape 0 indexPos ∈ initiator.streamTokens
        (CliPipelineHandler.pipelineHandler (candleOrchestrator others ops)) environment s
        (promptIds.map UInt32.toNat) maxTokens received →
      ∃ ids, (data, shape) = encodeIds ids ∧ (ids = promptIds ∨ ∃ id, ids = [id])) ∧
    ∀ ids indexPos,
      (CliPipelineHandler.forwardLayers (candleOrchestrator others ops) s (encodeIds ids).1
        (encodeIds ids).2 0 indexPos).2.orchestrator.embedded = s.orchestrator.embedded ++ [ids] ↔
      ∀ id ∈ ids, id = 0 := by
  refine ⟨fun _ _ _ => forward_of_mem_streamTokens, ?_⟩
  intro ids indexPos
  rw [embedded_forwardLayers others ops h, List.append_cancel_left_eq, List.cons.injEq,
    and_iff_left rfl, map_floatAsU32_eq_iff]

/-! ## A small model -/

/-- An orchestrator for one model. -/
def oneModel : Orchestrator Unit Unit where
  pathExists _ _ := true
  load o _ _ := (.ok (), o)
  unload o _ := (.ok (), o)
  hasBackend _ _ := true
  forwardPartial o _ input _ _ := (.ok input, o)

/-- A model that passes its tensors through. -/
def passThrough : CandleOps Unit Unit (List UInt32 × List ℕ) where
  getPipelineModel _ _ := .ok ()
  tensor floats shape := (floats, shape)
  fromVecError _ _ := "shape mismatch"
  embed _ _ tokenIds := .ok (tokenIds, [1, tokenIds.length, 1])
  forwardBlocks m _ x _ := (.ok x, m)
  projectToLogits _ _ x := .ok x
  tensorToActivation x := .ok ⟨x.1.flatMap bytes32, x.2, .f32⟩

/-- A handler that holds the first half of the model. -/
def firstHalf : HandlerState (Recorded Unit) Unit := ⟨⟨(), []⟩, some ⟨(), ⟨0, 16⟩, 32⟩⟩

theorem holdsFirstStage_firstHalf : HoldsFirstStage oneModel passThrough firstHalf :=
  ⟨_, rfl, rfl, rfl, rfl⟩

/-- A prompt of zeros is embedded as it is. -/
theorem zeros_survive :
    (CliPipelineHandler.forwardLayers (candleOrchestrator oneModel passThrough) firstHalf
      (encodeIds [0, 0]).1 (encodeIds [0, 0]).2 0 0).2.orchestrator.embedded = [[0, 0]] := by
  have hsurvive := token_ids_survive_iff oneModel passThrough holdsFirstStage_firstHalf
    (⟨⟨1, "m", 32, [], 0, 0⟩, NodeId.ofByte 1⟩ : PipelineInitiator ℚ)
    ⟨fun _ => .ok (), fun _ => true, fun _ => ""⟩ [0, 0] 1 []
  refine (hsurvive.2 [0, 0] 0).mpr ?_
  simp

/-- The id 1 is not embedded as it is. -/
theorem one_does_not_survive :
    (CliPipelineHandler.forwardLayers (candleOrchestrator oneModel passThrough) firstHalf
      (encodeIds [1]).1 (encodeIds [1]).2 0 0).2.orchestrator.embedded ≠ [[1]] := by
  rw [embedded_forwardLayers oneModel passThrough holdsFirstStage_firstHalf]
  intro h
  have hone : [1].map floatAsU32 = [1] := (List.cons.inj h).1
  exact absurd (map_floatAsU32_eq_iff.mp hone 1 List.mem_cons_self) (by decide)

end HiveBear.Cli
