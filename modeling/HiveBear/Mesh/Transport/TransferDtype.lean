/-
# The type a tensor travels in

A configured mode chooses the type that a tensor travels in, and the tensor is converted to it. The
conversion knows singles and halves; what it does not know it leaves as it is, and so a tensor of
the other two-byte type that must travel in single precision travels as it is.

Then its bytes are taken for half as many elements. In all other modes a tensor keeps its elements.
-/

import HiveBear.Mesh.Transport.TensorTransfer

namespace HiveBear.Mesh

open LittleEndian

/-- The number of bytes of an element. -/
def TensorDtype.byteSize : TensorDtype → ℕ
  | .f16 | .bf16 => 2
  | .f32 => 4

/-- Select the optimal transfer type based on configuration. -/
def selectTransferDtype (config : String) (srcDtype : TensorDtype) : TensorDtype :=
  if config = "f16" then .f16
  else if config = "f32" then .f32
  else if srcDtype = .f32 then .f16
  else srcDtype

/-! ## Lengths -/

theorem length_words16 (data : List UInt8) : (words16 data).length = data.length / 2 := by
  match data with
  | [] | [_] => simp [words16]
  | a :: b :: rest =>
      rw [words16, List.length_cons, length_words16 rest, List.length_cons, List.length_cons]
      omega

theorem length_words32 (data : List UInt8) : (words32 data).length = data.length / 4 := by
  match data with
  | [] | [_] | [_, _] | [_, _, _] => simp [words32]
  | a :: b :: c :: d :: rest =>
      rw [words32, List.length_cons, length_words32 rest]
      simp only [List.length_cons]
      omega

/-- Each lane has as many bytes. -/
theorem length_flatMap_of_length {α : Type*} {f : α → List UInt8} {n : ℕ}
    (h : ∀ a, (f a).length = n) (lanes : List α) : (lanes.flatMap f).length = n * lanes.length := by
  induction lanes with
  | nil => rfl
  | cons lane lanes ih =>
      rw [List.flatMap_cons, List.length_append, h, ih, List.length_cons, Nat.mul_succ,
        Nat.add_comm]

theorem length_f32ToF16 (data : List UInt8) : (f32ToF16 data).length = 2 * (data.length / 4) := by
  have hlane (f : UInt32) : (bytes16 (f16FromF32 f)).length = 2 := length_toBytes 2 _
  rw [f32ToF16, length_flatMap_of_length hlane, length_words32]

theorem length_f16ToF32 (data : List UInt8) : (f16ToF32 data).length = 4 * (data.length / 2) := by
  have hlane (h : UInt16) : (bytes32 (f32FromF16 h)).length = 4 := length_toBytes 4 _
  rw [f16ToF32, length_flatMap_of_length hlane, length_words16]

/-! ## Elements -/

/-- A tensor that travels in this mode has as many elements as before. -/
def KeepsCount (config : String) (srcDtype : TensorDtype) (data : List UInt8) : Prop :=
  let targetDtype := selectTransferDtype config srcDtype
  (convertForTransfer data srcDtype targetDtype).length / targetDtype.byteSize =
    data.length / srcDtype.byteSize

/-- The modes in which a type is left as it is, or converted to another one. -/
theorem selectTransferDtype_cases (config : String) (srcDtype : TensorDtype) :
    selectTransferDtype config srcDtype = srcDtype ∨
      (srcDtype = .f32 ∧ selectTransferDtype config srcDtype = .f16) ∨
      (srcDtype = .bf16 ∧ config = "f16" ∧ selectTransferDtype config srcDtype = .f16) ∨
      (srcDtype ≠ .f32 ∧ config = "f32" ∧ selectTransferDtype config srcDtype = .f32) := by
  rw [selectTransferDtype]
  split_ifs with hhalf hsingle hsrc
  · cases srcDtype with
    | f16 => exact Or.inl rfl
    | f32 => exact Or.inr (Or.inl ⟨rfl, rfl⟩)
    | bf16 => exact Or.inr (Or.inr (Or.inl ⟨rfl, hhalf, rfl⟩))
  · cases srcDtype with
    | f32 => exact Or.inl rfl
    | f16 | bf16 => exact Or.inr (Or.inr (Or.inr ⟨by decide, hsingle, rfl⟩))
  · exact Or.inr (Or.inl ⟨hsrc, rfl⟩)
  · exact Or.inl rfl

/-- **A tensor keeps its elements on the way**, unless it is a tensor of brain floats that must
travel in single precision and has any elements. -/
theorem keepsCount_iff (config : String) {srcDtype : TensorDtype} {data : List UInt8}
    (hwhole : srcDtype.byteSize ∣ data.length) :
    KeepsCount config srcDtype data ↔
      ¬ (config = "f32" ∧ srcDtype = .bf16 ∧ data ≠ []) := by
  obtain hsame | ⟨rfl, hhalf⟩ | ⟨rfl, hconfig, hhalf⟩ | ⟨hsrc, hconfig, hsingle⟩ :=
    selectTransferDtype_cases config srcDtype
  · have hconvert : convertForTransfer data srcDtype srcDtype = data := if_pos rfl
    have hkeeps : KeepsCount config srcDtype data := by
      rw [KeepsCount, hsame, hconvert]
    refine iff_of_true hkeeps ?_
    rintro ⟨rfl, rfl, -⟩
    cases hsame
  · have hkeeps : KeepsCount config .f32 data := by
      have hconvert : convertForTransfer data .f32 .f16 = f32ToF16 data := rfl
      rw [KeepsCount, hhalf, hconvert, length_f32ToF16]
      exact Nat.mul_div_cancel_left _ Nat.two_pos
    exact iff_of_true hkeeps fun h => by cases h.2.1
  · have hkeeps : KeepsCount config .bf16 data := by
      have hconvert : convertForTransfer data .bf16 .f16 = data := rfl
      rw [KeepsCount, hhalf, hconvert]
      rfl
    exact iff_of_true hkeeps fun h => absurd (hconfig.symm.trans h.1) (by decide)
  · cases srcDtype with
    | f32 => exact absurd rfl hsrc
    | f16 =>
        have hkeeps : KeepsCount config .f16 data := by
          have hconvert : convertForTransfer data .f16 .f32 = f16ToF32 data := rfl
          rw [KeepsCount, hsingle, hconvert, length_f16ToF32]
          exact Nat.mul_div_cancel_left _ (by decide)
        exact iff_of_true hkeeps fun h => by cases h.2.1
    | bf16 =>
        have hiff : KeepsCount config .bf16 data ↔ data.length / 4 = data.length / 2 := by
          have hconvert : convertForTransfer data .bf16 .f32 = data := rfl
          rw [KeepsCount, hsingle, hconvert]
          rfl
        -- two bytes for each element, and four are taken
        obtain ⟨count, hcount⟩ := hwhole
        have htwo : data.length = 2 * count := hcount
        have hempty : data = [] ↔ count = 0 := by
          rw [← List.length_eq_zero_iff]
          omega
        rw [hiff, htwo]
        simp only [hconfig, hempty, ne_eq, true_and, not_not]
        omega

/-- Two halves travel in single precision. -/
theorem keepsCount_iff_halves : KeepsCount "f32" .f16 [0x00, 0x3C, 0x00, 0x40] :=
  (keepsCount_iff "f32" (by decide)).mpr (by decide)

/-- Two brain floats that must travel in single precision arrive as one element. -/
theorem brain_floats_are_merged :
    TensorDtype.bf16.byteSize ∣ ([0x80, 0x3F, 0x00, 0x40] : List UInt8).length ∧
      ¬ KeepsCount "f32" .bf16 [0x80, 0x3F, 0x00, 0x40] :=
  ⟨by decide, by unfold KeepsCount; decide⟩

end HiveBear.Mesh
