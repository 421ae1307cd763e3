import KernelFusion.Machine.KernelType

/-!
A fusion request as it is written: the name of the fused kernel, the option text, the unit counts of
the hardware and the operators in the order in which they run.

Numbers keep the width in which they are written. Nothing is checked here.
-/

namespace KernelFusion

/-- Unit counts as written in a request. -/
structure HardwareProfile where
  cubeUnits : UInt32
  vectorUnits : UInt32
  deriving DecidableEq

/-- The counts of a request that gives none. -/
def HardwareProfile.default : HardwareProfile := ⟨24, 48⟩

instance : Inhabited HardwareProfile := ⟨.default⟩

/-- Whether an operator is fixed when it is compiled or chosen at launch. -/
inductive TaskType where | normal | dynamic
  deriving DecidableEq, Inhabited

/-- Device function of each domain. -/
structure FunctionNames where
  vector : Option String
  cube : Option String
  deriving DecidableEq, Inhabited

def FunctionNames.get? (f : FunctionNames) : Domain → Option String
  | .cube => f.cube
  | .vector => f.vector

/-- Bytes of instructions in each domain. -/
structure TextSize where
  vector : UInt64
  cube : UInt64
  deriving DecidableEq, Inhabited

def TextSize.get (t : TextSize) : Domain → Nat
  | .cube => t.cube.toNat
  | .vector => t.vector.toNat

/-- Parts of the early-start handshake that an operator does itself. -/
structure EarlyStartFlags where
  set : Bool
  wait : Bool
  deriving DecidableEq, Inhabited

/-- One way to run a dynamic operator. -/
structure TilingCase where
  tilingKey : UInt64
  kernelType : String
  functions : FunctionNames
  deriving DecidableEq, Inhabited

structure OperatorDescriptor where
  name : String
  kernelType : String
  blockDim : UInt32
  taskType : TaskType
  streamId : UInt32
  params : List String
  functions : FunctionNames
  textSize : TextSize
  sendEvents : List UInt32
  recvEvents : List UInt32
  earlyStart : EarlyStartFlags
  flushBefore : Bool
  flushAfter : Bool
  flushNever : Bool
  withSyncAll : Bool
  splitMode : Option UInt32
  debugOptions : String
  debugBufSize : UInt64
  unitLocal : Bool
  tiling : List TilingCase
  deriving DecidableEq, Inhabited

structure Request where
  kernelName : String
  options : String
  hardware : HardwareProfile
  operators : List OperatorDescriptor
  deriving DecidableEq, Inhabited

end KernelFusion
