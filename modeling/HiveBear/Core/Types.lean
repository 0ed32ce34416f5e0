/-
# Types that several crates share
-/

namespace HiveBear

inductive InferenceEngine
  | llamaCpp
  | onnxRuntime
  | mlx
  | candle
  | webGpu
  | mesh
  | cloud
  deriving DecidableEq

inductive ModelFormat
  | gguf
  | onnx
  | mlx
  | safeTensors
  deriving DecidableEq

/-- How a format is shown. -/
def ModelFormat.display : ModelFormat → String
  | .gguf => "GGUF"
  | .onnx => "ONNX"
  | .mlx => "MLX"
  | .safeTensors => "SafeTensors"

/-- How the weights of a model are stored. -/
inductive Quantization
  | q2K
  | q3KS
  | q3KM
  | q3KL
  | q4_0
  | q4_1
  | q4KS
  | q4KM
  | q5_0
  | q5_1
  | q5KS
  | q5KM
  | q6K
  | q8_0
  | f16
  | f32
  deriving DecidableEq

/-- How a quantization is shown. -/
def Quantization.display : Quantization → String
  | .q2K => "Q2_K"
  | .q3KS => "Q3_K_S"
  | .q3KM => "Q3_K_M"
  | .q3KL => "Q3_K_L"
  | .q4_0 => "Q4_0"
  | .q4_1 => "Q4_1"
  | .q4KS => "Q4_K_S"
  | .q4KM => "Q4_K_M"
  | .q5_0 => "Q5_0"
  | .q5_1 => "Q5_1"
  | .q5KS => "Q5_K_S"
  | .q5KM => "Q5_K_M"
  | .q6K => "Q6_K"
  | .q8_0 => "Q8_0"
  | .f16 => "F16"
  | .f32 => "F32"

end HiveBear
